/-! Non-negative fractions and their nearest integers, on which every decimal
text of a number rests. -/

namespace FormattedOutput.Number

/-- The integer nearest to `num / den`; a tie goes to the even one. -/
def roundHalfEven (num den : Nat) : Nat :=
  let quotient := num / den
  let twice := 2 * (num % den)
  if den < twice ∨ (twice = den ∧ quotient % 2 = 1) then quotient + 1 else quotient

/-- A non-negative number as a numerator over a denominator. -/
structure Fraction where
  num : Nat
  den : Nat
  deriving DecidableEq, Repr

namespace Fraction

/-- The number `coefficient * 2 ^ exponent`. -/
def ofBinary (coefficient : Nat) (exponent : Int) : Fraction :=
  ⟨coefficient * Nat.pow 2 exponent.toNat, Nat.pow 2 (-exponent).toNat⟩

/-- A number times `10 ^ places`. -/
def shift (x : Fraction) (places : Int) : Fraction :=
  ⟨x.num * Nat.pow 10 places.toNat, x.den * Nat.pow 10 (-places).toNat⟩

/-- The integer nearest to a number; a tie goes to the even one. -/
def round (x : Fraction) : Nat := roundHalfEven x.num x.den

/-- The decimal order of a positive number: the exponent of the greatest
power of ten not above it. -/
def order (x : Fraction) : Int :=
  if x.den ≤ x.num then (Nat.toDigits 10 (x.num / x.den)).length - 1
  else -(Nat.toDigits 10 ((x.den - 1) / x.num)).length

end Fraction

end FormattedOutput.Number
