import FormattedOutput.Directive
import FormattedOutput.Template

/-! The directives of the freestanding format language, read up to their conversion letter: flags, a
width, a precision and a length. -/

namespace FormattedOutput.Freestanding

/-- A directive without its conversion letter. -/
structure Spec where
  flags : Flags
  width : Amount
  precision : Option Amount
  length : Length
  deriving DecidableEq, Repr

/-- The amount at the start of a text, 0 if there is none, and the rest of the text. The digits
stand for the number that they spell; amounts that an `int` cannot hold are out of scope. -/
def scanAmount (bs : Bytes) : Amount × Bytes :=
  match bs with
  | [] => (.given 0, [])
  | b :: rest =>
    if b = '*'.toUInt8 then (.argument .next, rest)
    else
      let (n, rest) := scanNumber bs
      (.given n, rest)

/-- The precision at the start of a text, if there is one, and the rest of the text. -/
def scanPrecision (bs : Bytes) : Option Amount × Bytes :=
  match bs with
  | [] => (none, [])
  | b :: rest =>
    if b = '.'.toUInt8 then
      let (amount, rest) := scanAmount rest
      (some amount, rest)
    else (none, bs)

theorem scanAmount_star (bs : Bytes) : scanAmount ('*'.toUInt8 :: bs) = (.argument .next, bs) := by
  rw [scanAmount, if_pos rfl]

theorem scanAmount_of_ne {b : UInt8} (hb : b ≠ '*'.toUInt8) (bs : Bytes) :
    scanAmount (b :: bs) = (.given (scanNumber (b :: bs)).1, (scanNumber (b :: bs)).2) := by
  rw [scanAmount, if_neg hb]

theorem scanPrecision_point (bs : Bytes) :
    scanPrecision ('.'.toUInt8 :: bs) = (some (scanAmount bs).1, (scanAmount bs).2) := by
  rw [scanPrecision, if_pos rfl]

theorem scanPrecision_of_ne {b : UInt8} (hb : b ≠ '.'.toUInt8) (bs : Bytes) :
    scanPrecision (b :: bs) = (none, b :: bs) := by
  rw [scanPrecision, if_neg hb]

/-- The letters of flags. -/
def flagLetters : List Char := "-+ 0#'".toList

/-- The letters of lengths. -/
def lengths : List (String × Length) :=
  [("hh", .char), ("h", .short), ("ll", .longLong), ("l", .long), ("z", .size), ("t", .difference)]

/-- A directive at the start of a text, and the text from its conversion letter on. -/
def Spec.scan (bs : Bytes) : Spec × Bytes :=
  let (flags, bs) := Flags.scan flagLetters bs
  let (width, bs) := scanAmount bs
  let (precision, bs) := scanPrecision bs
  let (length, bs) := Length.scan lengths bs
  ({ flags, width, precision, length }, bs)

/-- A directive whose width and precision are settled. -/
structure Layout where
  flags : Flags
  width : Int
  precision : Option Int
  length : Length
  deriving DecidableEq, Repr

/-- Settle a directive by the arguments it takes for its width and its precision. -/
def Spec.settle (spec : Spec) (s : Supply) : Option (Layout × Supply) := do
  let (width, s) ← s.amount spec.width
  let (precision, s) ← s.amount? spec.precision
  return ({ flags := spec.flags, width, precision, length := spec.length }, s)

end FormattedOutput.Freestanding
