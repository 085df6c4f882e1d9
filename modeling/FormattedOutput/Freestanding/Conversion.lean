import FormattedOutput.Field
import FormattedOutput.Freestanding.Spec
import FormattedOutput.Number.Binary64
import FormattedOutput.Number.Decimal
import FormattedOutput.Text.Utf8

/-! The conversions of the freestanding format language. All text is UTF-8, and widths and
precisions count characters. A width or a precision that is used has to be in a range; one that is
not aborts the process. -/

namespace FormattedOutput.Freestanding

open Number

/-- The greatest width and precision. -/
def maxAmount : Nat := 0xffff

/-- What becomes of an attempt to write characters. -/
inductive Attempt where
  | write (text : Rope Char)
  /-- The formatter refuses. -/
  | refuse
  | abort
  deriving DecidableEq, Repr

/-- Go on with an amount if it is in range, and abort otherwise. -/
def within (n : Int) (go : Nat → Rope Char) : Attempt :=
  if 0 ≤ n ∧ n ≤ maxAmount then .write (go n.toNat) else .abort

/-- Abort unless an amount is in range. -/
def Attempt.require (n : Int) (a : Attempt) : Attempt :=
  if 0 ≤ n ∧ n ≤ maxAmount then a else .abort

/-- A text in its field. The precision is the greatest number of characters; without one it is the
number of bytes, which cuts nothing off but has to be in range too. -/
def text (l : Layout) (bs : Bytes) : Attempt :=
  match Utf8.decode? bs with
  | none => .refuse
  | some cs =>
    let precision : Int := l.precision.getD bs.length
    .require precision (within l.width fun width =>
      pad l.flags.left ' ' width (.ofList (cs.take precision.toNat)))

/-- Literal text. -/
def literal (bs : Bytes) : Attempt :=
  text { flags := {}, width := 0, precision := none, length := .int } bs

/-- A character in its field. -/
def character (l : Layout) (w : UInt64) : Attempt :=
  within l.width fun width => pad l.flags.left ' ' width (.ofList [Char.ofUInt8 w.toUInt8])

/-- A number without a sign in its field. -/
def unsignedField (l : Layout) (marker digits : List Char) : Attempt :=
  let justify : Justify :=
    if l.flags.left then .left else if l.flags.zero then .zeros else .right
  within l.width (Numeral.field { marker, digits := .ofList digits } justify)

/-- An unsigned integer. The alternate form has the marker of the base, for zero too. -/
def unsignedInteger (l : Layout) (base : Nat) (upper : Bool) (marker : List Char) (w : UInt64) :
    Attempt :=
  let digits := Nat.toDigits base (l.length.unsigned w)
  unsignedField l (if l.flags.alternate then marker else [])
    (if upper then digits.map Char.toUpper else digits)

/-- An address. -/
def address (l : Layout) (w : UInt64) : Attempt :=
  unsignedField l ['0', 'x'] (Nat.toDigits 16 w.toNat)

/-- A number that may have a sign. -/
structure Signed where
  /-- Whether the number counts as negative. -/
  negative : Bool
  /-- Whether a sign can be shown. -/
  signable : Bool := true
  digits : Rope Char
  deriving DecidableEq, Repr

/-- The number with its sign, a plus sign on demand. -/
def Signed.numeral (n : Signed) (plus : Bool) : Numeral where
  sign := if !n.signable then [] else if n.negative then ['-'] else if plus then ['+'] else []
  digits := n.digits

/-- A number that may have a sign, in its field. On demand a space stands
in place of a plus sign. -/
def signedField (l : Layout) (n : Signed) : Attempt :=
  let f := l.flags
  let spaced := f.space && !n.negative
  let plain := n.numeral false
  -- whether a space and the number are too long for the field
  let tight := 0 ≤ l.width ∧ l.width < plain.text.length + 1
  if f.left then
    if f.plus then within l.width ((n.numeral true).field .left)
    else if spaced then within (l.width - 1) fun width => .ofList [' '] ++ plain.field .left width
    else within l.width (plain.field .left)
  else if f.plus then
    within l.width ((n.numeral true).field (if f.zero then .zeros else .right))
  else if f.zero then
    if spaced then
      within (if tight then l.width else l.width - 1) fun width =>
        .ofList [' '] ++ plain.field .zeros width
    else within l.width (plain.field .zeros)
  else if spaced ∧ tight then within (plain.text.length + 1) (plain.field .right)
  else within l.width (plain.field .right)

/-- A signed integer. Its precision has no effect, but has to be in range. -/
def signedInteger (l : Layout) (w : UInt64) : Attempt :=
  let n := l.length.signed w
  .require (l.precision.getD 0)
    (signedField l { negative := n < 0, digits := .ofList (Nat.toDigits 10 n.natAbs) })

/-- How binary64 numbers are written. -/
inductive FloatStyle where
  /-- Places behind the point. -/
  | fixed
  /-- One digit before the point, and an exponent behind a mark. -/
  | scientific (mark : Char)
  deriving DecidableEq, Repr

/-- The digits of a number. -/
def floatDigits (style : FloatStyle) (x : Fraction) (precision : Nat) : Rope Char :=
  match style with
  | .fixed => (x.fixed precision).text false
  | .scientific mark =>
    let (digits, exponent) := x.scientific precision
    digits.text false ++
      .ofList (mark :: (if exponent < 0 then ['-'] else []) ++ Nat.toDigits 10 exponent.natAbs)

/-- A binary64 number. -/
def floating (style : FloatStyle) (l : Layout) (x : Binary64) : Attempt :=
  let precision := l.precision.getD 6
  .require precision <| signedField l <|
    match x.magnitude with
    | .infinite => { negative := x.negative, digits := .ofList ['i', 'n', 'f'] }
    | .nan => { negative := x.negative, signable := false, digits := .ofList ['N', 'a', 'N'] }
    | .finite coefficient exponent =>
      { negative := x.negative
        digits := floatDigits style (.ofBinary coefficient exponent) precision.toNat }

/-- What a conversion letter asks for. -/
inductive Conversion where
  | percentSign
  | signed
  | unsigned (base : Nat) (upper : Bool) (marker : List Char)
  | floating (style : FloatStyle)
  | character
  | text
  | address
  /-- The letter is refused. -/
  | refused
  deriving DecidableEq, Repr

/-- What a letter asks for. -/
def Conversion.ofLetter (letter : UInt8) : Conversion :=
  match Char.ofUInt8 letter with
  | '%' => percentSign
  | 'd' | 'i' => signed
  | 'u' => unsigned 10 false []
  | 'o' => unsigned 8 false ['0', 'o']
  | 'x' => unsigned 16 false ['0', 'x']
  | 'X' => unsigned 16 true ['0', 'x']
  | 'f' | 'F' | 'g' | 'G' | 'a' | 'A' => floating .fixed
  | 'e' => floating (.scientific 'e')
  | 'E' => floating (.scientific 'E')
  | 'c' => character
  | 's' => text
  | 'p' => address
  | _ => refused

/-- What becomes of a conversion that takes an argument, if the argument is one that it can take. -/
def Conversion.apply (c : Conversion) (l : Layout) (arg : Argument) : Option Attempt :=
  match c, arg with
  | .signed, .word w => some (signedInteger l w)
  | .unsigned base upper marker, .word w => some (unsignedInteger l base upper marker w)
  | .floating style, .double bits => some (Freestanding.floating style l (.ofBits bits))
  | .character, .word w => some (Freestanding.character l w)
  | .text, .text bs => some (Freestanding.text l bs.untilZero)
  | .address, .word w => some (Freestanding.address l w)
  | _, _ => none

/-- What becomes of a directive, and the arguments that it leaves, if its arguments
are ones that it can take. -/
def perform (spec : Spec) (letter : UInt8) (s : Supply) : Option (Attempt × Supply) := do
  let (l, s) ← spec.settle s
  match Conversion.ofLetter letter with
  | .percentSign => return (.write (.ofList ['%']), s)
  | .refused => return (.refuse, s)
  | c =>
    let (arg, s) ← s.take .next
    return (← c.apply l arg, s)

end FormattedOutput.Freestanding
