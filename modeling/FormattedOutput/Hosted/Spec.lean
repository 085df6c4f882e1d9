import FormattedOutput.Directive
import FormattedOutput.Template

/-! The directives of the host's format language, read up to their conversion letter: a position or
none, flags, a width, a precision and a length.

The host is strict until it meets a directive that names an argument by its position, or one that it
does not know. From that directive on it is lenient: it passes over numbers that are too large, and
over a directive that the format leaves unfinished. -/

namespace FormattedOutput.Hosted

/-- The greatest `int`. -/
def maxInt : Nat := 0x7fffffff

/-- What the numbers in a directive show. -/
inductive Mark where
  /-- An argument is named by its position. -/
  | positional
  /-- A number is too large. -/
  | oversized
  deriving DecidableEq, Repr

/-- A directive without its conversion letter. -/
structure Spec where
  /-- The argument that is converted. -/
  source : Source
  flags : Flags
  width : Option Amount
  precision : Option Amount
  length : Length
  /-- What its numbers show, in the order in which they stand. -/
  marks : List Mark
  deriving DecidableEq, Repr

/-- The index that a position at the start of a text stands for, as in `2$`, and the rest of the
text. Positions count from one. -/
def scanPosition? (bs : Bytes) : Option (Nat × Bytes) :=
  match scanNumber bs with
  | (index + 1, b :: rest) => if b = '$'.toUInt8 then some (index, rest) else none
  | _ => none

/-- The argument that is named at the start of a text, what its position shows, and the rest of the
text. A position that is too large names none. -/
def scanSource (bs : Bytes) : Source × List Mark × Bytes :=
  match scanPosition? bs with
  | none => (.next, [], bs)
  | some (index, rest) =>
    if index < maxInt then (.nth index, [.positional], rest) else (.next, [.oversized], rest)

/-- The argument that is named behind a star, what its position shows, and the rest of the text. A
number that is too large is left standing, whether it is a position or not. -/
def scanStar (bs : Bytes) : Source × List Mark × Bytes :=
  if maxInt < (scanNumber bs).1 then (.next, [.oversized], bs) else scanSource bs

/-- The amount at the start of a text, if there is one, what its numbers show, and the rest of the
text. A number that is too large counts as none. -/
def scanAmount : Bytes → Option Amount × List Mark × Bytes
  | [] => (none, [], [])
  | b :: bs =>
    if b = '*'.toUInt8 then
      let (source, marks, rest) := scanStar bs
      (some (.argument source), marks, rest)
    else if (Char.ofUInt8 b).isDigit then
      let (n, rest) := scanNumber (b :: bs)
      if maxInt < n then (none, [.oversized], rest) else (some (.given n), [], rest)
    else (none, [], b :: bs)

/-- The precision at the start of a text, if there is one, what its numbers show, and the rest of
the text. A point alone stands for the precision 0. -/
def scanPrecision : Bytes → Option Amount × List Mark × Bytes
  | [] => (none, [], [])
  | b :: bs =>
    if b = '.'.toUInt8 then
      match scanAmount bs with
      | (none, [], rest) => (some (.given 0), [], rest)
      | precision => precision
    else (none, [], b :: bs)

/-- The letters of flags. -/
def flagLetters : List Char := "-+ 0#'I".toList

/-- The letters of lengths. -/
def lengths : List (String × Length) :=
  [("hh", .char), ("h", .short), ("ll", .longLong), ("l", .long), ("L", .extended),
    ("q", .extended), ("z", .size), ("Z", .size), ("t", .difference), ("j", .maximal)]

/-- A directive at the start of a text, and the text from its conversion letter on. -/
def Spec.scan (bs : Bytes) : Spec × Bytes :=
  let (source, sourceMarks, bs) := scanSource bs
  let (flags, bs) := Flags.scan flagLetters bs
  let (width, widthMarks, bs) := scanAmount bs
  let (precision, precisionMarks, bs) := scanPrecision bs
  let (length, bs) := Length.scan lengths bs
  let marks := sourceMarks ++ widthMarks ++ precisionMarks
  ({ source, flags, width, precision, length, marks }, bs)

/-- How directives are read. -/
inductive Manner where
  | strict
  | lenient
  deriving DecidableEq, Repr

/-- A directive whose width and precision are settled. -/
structure Layout where
  flags : Flags
  width : Nat
  precision : Option Nat
  length : Length
  deriving DecidableEq, Repr

/-- The length that a directive has. -/
def Manner.length : Manner → Length → Length
  | .lenient, .extended => .int
  | _, length => length

/-- The flags that a directive has, if its width is negative or not. A negative width stands
for the flag of the left side. That flag takes away the one for zeros; a negative width does so
in strict reading only. -/
def Manner.flags (manner : Manner) (negative : Bool) (f : Flags) : Flags :=
  { f with
    left := f.left || negative
    zero := f.zero && !(f.left || (negative && manner = .strict)) }

/-- Settle a directive by the arguments it takes for its width and its precision. A negative width
stands for its absolute value on the left side; a negative precision stands for none. -/
def Spec.settle (spec : Spec) (manner : Manner) (s : Supply) : Option (Layout × Supply) := do
  let (width, s) ← s.amount? spec.width
  let (precision, s) ← s.amount? spec.precision
  let width := width.getD 0
  let layout : Layout :=
    { flags := manner.flags (width < 0) spec.flags
      width := width.natAbs
      precision := precision.bind fun n => if n < 0 then none else some n.toNat
      length := manner.length spec.length }
  return (layout, s)

/-- The width of the field of a text. No field is filled by more than `maxInt`, as that of an empty
text would be if its width were the absolute value of the least `int`. -/
def Layout.widthFor (l : Layout) (length : Nat) : Nat :=
  if l.width - length ≤ maxInt then l.width else 0

end FormattedOutput.Hosted
