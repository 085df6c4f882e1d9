import FormattedOutput.Number.Fraction
import FormattedOutput.Rope

/-! Decimal texts of numbers: positional with a number of places, and scientific with one digit
before the point. Both give the nearest number that the places can express; a tie goes to the even
last digit. A number whose denominator is a power of two has zeros only behind some place, and these
are counted and not written out. -/

namespace FormattedOutput.Number

/-- The digits of a number before and behind its point. -/
structure Places where
  whole : List Char
  fraction : List Char
  /-- The number of zeros behind the digits of the fraction. -/
  zeros : Nat := 0
  deriving DecidableEq, Repr

namespace Places

/-- The digits of `n / base ^ places`. -/
def ofScaled (base n places : Nat) : Places where
  whole := Nat.toDigits base (n / Nat.pow base places)
  fraction :=
    if places = 0 then [] else (Nat.toDigits base (n % Nat.pow base places)).leftpad places '0'

/-- The text of a number. Without digits behind it the point is written only on demand. -/
def text (d : Places) (point : Bool) : Rope Char :=
  if d.fraction.isEmpty && d.zeros = 0 && !point then .ofList d.whole
  else .ofList (d.whole ++ '.' :: d.fraction) ++ .fill d.zeros '0'

/-- The digits without the zeros at the end of the fraction. -/
def trim (d : Places) : Places where
  whole := d.whole
  fraction := (d.fraction.reverse.dropWhile (· = '0')).reverse

end Places

namespace Fraction

/-- The number of places behind which the digits of a number are zeros, if its
denominator is a power of two. -/
def exactPlaces (x : Fraction) : Nat := x.den.log2

/-- A number to a number of places behind the point. -/
def fixed (x : Fraction) (places : Nat) : Places :=
  let kept := min places x.exactPlaces
  { Places.ofScaled 10 (x.shift kept).round kept with zeros := places - kept }

/-- The digits of a number to a number of places behind the first digit, as one integer, and the
power of ten that belongs to the first digit. -/
def significant (x : Fraction) (places : Nat) : Nat × Int :=
  if x.num = 0 then (0, 0)
  else
    let n := (x.shift (places - x.order)).round
    -- rounding may carry into a new digit
    if n = Nat.pow 10 (places + 1) then (Nat.pow 10 places, x.order + 1) else (n, x.order)

/-- A number with one digit before the point and a number of places behind it, and the power of ten
that it is to be multiplied by. -/
def scientific (x : Fraction) (places : Nat) : Places × Int :=
  let kept := min places (x.exactPlaces + x.order).toNat
  let (n, exponent) := x.significant kept
  ({ Places.ofScaled 10 n kept with zeros := places - kept }, exponent)

end Fraction

end FormattedOutput.Number
