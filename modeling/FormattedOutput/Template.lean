import FormattedOutput.Bytes

/-! Formats cut into literal text and directives. A percent sign starts a directive, which is
read up to its conversion letter. A directive that reaches the next percent sign has that sign
for its letter, and what follows is literal. How a directive is read up to its letter is left
to the format language. -/

namespace FormattedOutput

/-- A part of a format. -/
inductive Item (σ : Type) where
  /-- Text that is written as it stands. -/
  | literal (text : Bytes)
  /-- A directive with its conversion letter. -/
  | directive (spec : σ) (letter : UInt8)
  /-- A directive at the end of the format that has no letter. -/
  | unfinished (spec : σ)
  deriving DecidableEq, Repr

/-- The sign that starts a directive. -/
def percent : UInt8 := '%'.toUInt8

namespace Template

/-- The parts of a format behind its first percent sign, given the
stretches between percent signs. -/
def items {σ : Type} (scan : Bytes → σ × Bytes) : List Bytes → List (Item σ)
  | [] => []
  | [stretch] =>
    match scan stretch with
    | (spec, letter :: text) => [.directive spec letter, .literal text]
    | (spec, []) => [.unfinished spec]
  | stretch :: next :: later =>
    match scan stretch with
    | (spec, letter :: text) =>
      .directive spec letter :: .literal text :: items scan (next :: later)
    | (spec, []) => .directive spec percent :: .literal next :: items scan later

/-- The parts of a format. -/
def parse {σ : Type} (scan : Bytes → σ × Bytes) (format : Bytes) : List (Item σ) :=
  match format.splitOn percent with
  | [] => []
  | text :: stretches => .literal text :: items scan stretches

end Template

end FormattedOutput
