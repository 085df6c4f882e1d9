import FormattedOutput.Number.Fraction

/-! Numbers in the binary64 format: a sign, and a magnitude that is
finite, infinite or no number. -/

namespace FormattedOutput.Number

/-- The absolute value of a binary64 number. -/
inductive Magnitude where
  /-- The number `coefficient * 2 ^ exponent`. -/
  | finite (coefficient : Nat) (exponent : Int)
  | infinite
  | nan
  deriving DecidableEq, Repr

/-- A number in the binary64 format. -/
structure Binary64 where
  negative : Bool
  magnitude : Magnitude
  deriving DecidableEq, Repr

/-- The number that 64 bits stand for: a sign bit, 11 bits of exponent, 52 bits of fraction. -/
def Binary64.ofBits (bits : UInt64) : Binary64 where
  negative := bits.toNat / Nat.pow 2 63 % 2 = 1
  magnitude :=
    let exponent : Nat := bits.toNat / Nat.pow 2 52 % Nat.pow 2 11
    let fraction := bits.toNat % Nat.pow 2 52
    if exponent = Nat.pow 2 11 - 1 then
      if fraction = 0 then .infinite else .nan
    else if exponent = 0 then .finite fraction (-1074)
    else .finite (Nat.pow 2 52 + fraction) ((exponent : Int) - 1075)

end FormattedOutput.Number
