import FormattedOutput.Freestanding.Conversion
import FormattedOutput.Outcome

/-! A formatted write in the freestanding format language. -/

namespace FormattedOutput.Freestanding

/-- An attempt to write, and what is written after it. -/
def Attempt.andThen (a : Attempt) (later : Outcome) : Outcome :=
  match a with
  | .write text => later.offer (Utf8.encodeRope text)
  | .refuse => .finish (.failed .refused)
  | .abort => .finish .aborted

/-- Carry out the parts of a format. -/
def run : List (Item Spec) → Supply → Outcome
  | [], _ => .finish .done
  | .literal text :: items, s => (literal text).andThen (run items s)
  | .unfinished _ :: _, _ => .finish (.failed .refused)
  | .directive spec letter :: items, s =>
    match perform spec letter s with
    | some (attempt, s) => attempt.andThen (run items s)
    | none => .finish .undefined

/-- What a formatted write comes to. -/
def format (fmt : Bytes) (args : List Argument) : Outcome :=
  run (Template.parse Spec.scan fmt) (.ofList args)

end FormattedOutput.Freestanding
