import FormattedOutput.Number.Binary64
import FormattedOutput.Number.Decimal
import FormattedOutput.Hosted.Integer

/-! Binary64 numbers in the host's format language: positional, scientific, the shorter of
the two, and hexadecimal. -/

namespace FormattedOutput.Hosted

open Number

/-- How binary64 numbers are written. -/
inductive FloatStyle where
  /-- Places behind the point. -/
  | fixed
  /-- One digit before the point, and an exponent. -/
  | scientific
  /-- Significant digits, positional if the exponent is small. -/
  | general
  /-- Hexadecimal digits, and an exponent of two. -/
  | hexadecimal
  deriving DecidableEq, Repr

/-- An exponent with its mark, its sign and a least number of digits. -/
def exponentText (mark : Char) (least : Nat) (exponent : Int) : List Char :=
  mark :: (if exponent < 0 then '-' else '+') ::
    (Nat.toDigits 10 exponent.natAbs).leftpad least '0'

/-- A number in scientific notation. -/
def scientificText (x : Fraction) (places : Nat) (finish : Places → Rope Char) : Rope Char :=
  let (digits, exponent) := x.scientific places
  finish digits ++ .ofList (exponentText 'e' 2 exponent)

/-- A number to a number of significant digits. It is positional if its exponent is at least -4 and
below the number of digits. Zeros at the end are left out, except in the alternate form. -/
def generalText (x : Fraction) (precision : Nat) (alternate : Bool) : Rope Char :=
  let digits := max precision 1
  let finish (d : Places) : Rope Char := if alternate then d.text true else d.trim.text false
  let exponent := (x.scientific (digits - 1)).2
  if -4 ≤ exponent ∧ exponent < digits then finish (x.fixed (digits - 1 - exponent).toNat)
  else scientificText x (digits - 1) finish

/-- The hexadecimal digits of a coefficient of 53 bits, to a number of places behind the first. -/
def hexadecimalPlaces (coefficient : Nat) (places : Option Nat) : Places :=
  match places with
  | none => (Places.ofScaled 16 coefficient 13).trim
  | some p =>
    if p < 13 then .ofScaled 16 (roundHalfEven coefficient (Nat.pow 16 (13 - p))) p
    else { Places.ofScaled 16 coefficient 13 with zeros := p - 13 }

/-- The number `coefficient * 2 ^ exponent` in hexadecimal digits, without
the marker of the base. -/
def hexadecimalText (coefficient : Nat) (exponent : Int) (places : Option Nat) (alternate : Bool) :
    Rope Char :=
  (hexadecimalPlaces coefficient places).text alternate ++
    .ofList (exponentText 'p' 1 (if coefficient = 0 then 0 else exponent + 52))

/-- The number `coefficient * 2 ^ exponent`, without the marker of the base. -/
def floatText (style : FloatStyle) (l : Layout) (coefficient : Nat) (exponent : Int) : Rope Char :=
  let x := Fraction.ofBinary coefficient exponent
  let precision := l.precision.getD 6
  let alternate := l.flags.alternate
  match style with
  | .fixed => (x.fixed precision).text alternate
  | .scientific => scientificText x precision (·.text alternate)
  | .general => generalText x precision alternate
  | .hexadecimal => hexadecimalText coefficient exponent l.precision alternate

/-- What fills the field of a finite number. Zeros on the left side stand behind a decimal number; a
hexadecimal one goes without. -/
def floatJustify (style : FloatStyle) (f : Flags) : Justify :=
  match f.left, f.zero with
  | false, false => .right
  | false, true => .zeros
  | true, false => .left
  | true, true => if style = .hexadecimal then .unfilled else .zerosBehind

/-- A binary64 number in its field. Zeros fill the field of a finite number only. -/
def floating (style : FloatStyle) (upper : Bool) (l : Layout) (x : Binary64) : Rope Char :=
  let sign := signOf l.flags x.negative
  let inField (justify : Justify) (n : Numeral) : Rope Char :=
    n.field justify (l.widthFor n.text.length)
  let word (cs : List Char) : Rope Char :=
    inField (if l.flags.left then .left else .right) { sign, digits := .ofList (cased upper cs) }
  match x.magnitude with
  | .infinite => word ['i', 'n', 'f']
  | .nan => word ['n', 'a', 'n']
  | .finite coefficient exponent =>
    let digits := floatText style l coefficient exponent
    inField (floatJustify style l.flags)
      { sign
        marker := if style = .hexadecimal then cased upper ['0', 'x'] else []
        digits := if upper then digits.map Char.toUpper else digits }

end FormattedOutput.Hosted
