import FormattedOutput.Field
import FormattedOutput.Hosted.Spec
import FormattedOutput.Text.Utf8

/-! Texts and characters in the host's format language. Widths and precisions count bytes, and
zeros never fill a field. -/

namespace FormattedOutput.Hosted

/-- Bytes in a field filled by spaces. -/
def bytesField (l : Layout) (bs : Bytes) : Rope UInt8 :=
  pad l.flags.left ' '.toUInt8 (l.widthFor bs.length) (.ofList bs)

/-- As much of a text as the precision says. -/
def Layout.cut {α : Type} (l : Layout) (xs : List α) : List α :=
  match l.precision with
  | some p => xs.take p
  | none => xs

/-- A text in its field. -/
def text (l : Layout) (bs : Bytes) : Rope UInt8 := bytesField l (l.cut bs)

/-- What is written for a null address of a text: a word, if the precision
leaves room for all of it. -/
def nullText (l : Layout) : Rope UInt8 :=
  bytesField l (if l.precision.all (6 ≤ ·) then Utf8.encode "(null)".toList else [])

/-- What is written for a null address. -/
def nullAddress (l : Layout) : Rope UInt8 := bytesField l (Utf8.encode "(nil)".toList)

/-- The byte of a wide character, if it has one. -/
def wideByte? (code : Nat) : Option UInt8 := if code < 128 then some (UInt8.ofNat code) else none

/-- A wide character in its field, if it has a byte. -/
def wideCharacter? (l : Layout) (code : Nat) : Option (Rope UInt8) :=
  (wideByte? code).map fun b => bytesField l [b]

/-- The number of characters of a wide text that are written at a time. -/
def wideBlock : Nat := 256

/-- What is written of a wide text before the block with a character that has no byte. Nothing is,
if the text is first measured for its field. -/
def wideFront (l : Layout) (codes : List Nat) : Bytes :=
  if l.width ≠ 0 ∧ ¬ l.flags.left ∧ l.precision.isSome then []
  else
    let front := (codes.takeWhile fun code => (wideByte? code).isSome).filterMap wideByte?
    front.take (front.length / wideBlock * wideBlock)

/-- A wide text in its field, if each of its characters that the precision leaves has a byte, and
otherwise what is written of it. A width beyond `maxInt` is none. -/
def wideText (l : Layout) (codes : List Nat) : Except Bytes (Rope UInt8) :=
  let kept := l.cut (codes.takeWhile (· ≠ 0))
  match kept.mapM wideByte? with
  | some bs => .ok (bytesField (if maxInt < l.width then { l with width := 0 } else l) bs)
  | none => .error (wideFront l kept)

end FormattedOutput.Hosted
