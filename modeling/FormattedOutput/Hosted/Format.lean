import FormattedOutput.Hosted.Conversion

/-! A formatted write in the host's format language. -/

namespace FormattedOutput.Hosted

/-- The manner in which a directive is read that is met in strict reading, or why it fails. What
comes first in the directive decides. -/
def Spec.manner (spec : Spec) (letter : Option UInt8) : Except Cause Manner :=
  match spec.marks, letter with
  | .oversized :: _, _ => .error .oversized
  | .positional :: _, _ => .ok .lenient
  | [], none => .error .unfinished
  | [], some letter =>
    .ok (if (Conversion.ofLetter letter).takes spec.length then .strict else .lenient)

/-- The manner in which a directive is read, or why it fails. Lenient reading stays lenient. -/
def Manner.next (manner : Manner) (spec : Spec) (letter : Option UInt8) : Except Cause Manner :=
  match manner with
  | .strict => spec.manner letter
  | .lenient => .ok .lenient

/-- Offer a text, and go on if an `int` can still count all that was written. -/
def proceed (written : Nat) (text : Rope UInt8) (later : Nat → Outcome) : Outcome :=
  let total := written + text.length
  if maxInt < total then (Outcome.finish (.failed .oversized)).offer text
  else (later total).offer text

/-- Have an effect, and go on if it is not a failure. -/
def Effect.andThen (effect : Effect) (written : Nat) (later : Nat → Outcome) : Outcome :=
  match effect with
  | .write text => proceed written text later
  | .store cell size => (later written).store { cell, size, count := written }
  | .fail text cause => (Outcome.finish (.failed cause)).offer (.ofList text)

/-- Carry out a directive, and go on with the manner in which it was read. -/
def step (errno : Int) (manner : Manner) (spec : Spec) (letter : Option UInt8) (s : Supply)
    (written : Nat) (later : Manner → Supply → Nat → Outcome) : Outcome :=
  match manner.next spec letter with
  | .error cause => .finish (.failed cause)
  | .ok manner =>
    match perform manner errno spec letter s with
    | some (effect, s) => effect.andThen written (later manner s)
    | none => .finish .undefined

/-- Carry out the parts of a format, when `written` bytes were written before them. -/
def run (errno : Int) : List (Item Spec) → Manner → Supply → (written : Nat) → Outcome
  | [], _, _, _ => .finish .done
  | .literal text :: items, manner, s, written =>
    proceed written (.ofList text) (run errno items manner s)
  | .directive spec letter :: items, manner, s, written =>
    step errno manner spec (some letter) s written (run errno items)
  | .unfinished spec :: items, manner, s, written =>
    step errno manner spec none s written (run errno items)

/-- What a formatted write comes to. -/
def format (fmt : Bytes) (args : List Argument) (errno : Int) : Outcome :=
  run errno (Template.parse Spec.scan fmt) .strict (.ofList args) 0

end FormattedOutput.Hosted
