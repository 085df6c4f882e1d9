import FormattedOutput.Field
import FormattedOutput.Hosted.Spec

/-! Integers in the host's format language. -/

namespace FormattedOutput.Hosted

/-- The sign of a number. -/
def signOf (flags : Flags) (negative : Bool) : List Char :=
  if negative then ['-'] else if flags.plus then ['+'] else if flags.space then [' '] else []

/-- A text in upper case on demand. -/
def cased (upper : Bool) (cs : List Char) : List Char := if upper then cs.map Char.toUpper else cs

/-- A base, and how numbers are written in it. -/
structure Radix where
  base : Nat
  upper : Bool := false
  /-- What the alternate form puts before a number other than zero. -/
  marker : List Char := []
  deriving DecidableEq, Repr

namespace Radix

def decimal : Radix := { base := 10 }

def octal : Radix := { base := 8 }

def hexadecimal : Radix := { base := 16, marker := ['0', 'x'] }

def upperHexadecimal : Radix := { base := 16, upper := true, marker := ['0', 'X'] }

def binary : Radix := { base := 2, marker := ['0', 'b'] }

def upperBinary : Radix := { base := 2, marker := ['0', 'B'] }

end Radix

/-- The digits of an integer. A precision is the least number of digits, and zero has none at
precision 0. The alternate form of octal digits starts with a zero. -/
def integerDigits (l : Layout) (radix : Radix) (n : Nat) : Rope Char :=
  let plain := if n = 0 ∧ l.precision = some 0 then [] else Nat.toDigits radix.base n
  let zeros := l.precision.getD 1 - plain.length
  let leading := l.flags.alternate ∧ radix.base = 8 ∧ zeros = 0 ∧ plain.head? ≠ some '0'
  .fill (if leading then 1 else zeros) '0' ++ .ofList (cased radix.upper plain)

/-- An integer in its field. Zeros fill the field only if there is no precision. -/
def integer (l : Layout) (radix : Radix) (sign : List Char) (n : Nat) : Rope Char :=
  let numeral : Numeral :=
    { sign
      marker := if l.flags.alternate ∧ n ≠ 0 then radix.marker else []
      digits := integerDigits l radix n }
  let justify : Justify :=
    if l.flags.left then .left
    else if l.flags.zero ∧ l.precision.isNone then .zeros
    else .right
  numeral.field justify (l.widthFor numeral.text.length)

/-- A number with its sign, in decimal digits. -/
def decimalInteger (l : Layout) (n : Int) : Rope Char :=
  integer l .decimal (signOf l.flags (n < 0)) n.natAbs

/-- The signed integer in a word. -/
def signedInteger (l : Layout) (w : UInt64) : Rope Char := decimalInteger l (l.length.signed w)

/-- The unsigned integer in a word. -/
def unsignedInteger (l : Layout) (radix : Radix) (w : UInt64) : Rope Char :=
  integer l radix [] (l.length.unsigned w)

end FormattedOutput.Hosted
