import FormattedOutput.Rope

/-! Fields: a text brought to a least width. A number can also be widened by zeros, which stand
behind its sign and the marker of its base. -/

namespace FormattedOutput

/-- What a field that is too short is filled by, and where. -/
inductive Justify where
  /-- Spaces before the text. -/
  | right
  /-- Spaces behind the text. -/
  | left
  /-- Zeros before the digits of a number. -/
  | zeros
  /-- Zeros behind the text. -/
  | zerosBehind
  /-- Nothing. -/
  | unfilled
  deriving DecidableEq, Repr

/-- A text in a field filled on one side. -/
def pad {α : Type} (left : Bool) (filler : α) (width : Nat) (text : Rope α) : Rope α :=
  let filling := Rope.fill (width - text.length) filler
  if left then text ++ filling else filling ++ text

theorem length_pad {α : Type} (left : Bool) (filler : α) (width : Nat) (text : Rope α) :
    (pad left filler width text).length = max width text.length := by
  cases left <;> simp [pad] <;> omega

/-- A written number in its parts. -/
structure Numeral where
  sign : List Char := []
  /-- The marker of the base. -/
  marker : List Char := []
  digits : Rope Char
  deriving DecidableEq, Repr

namespace Numeral

/-- What stands before the digits of a number. -/
def front (n : Numeral) : Rope Char := .ofList (n.sign ++ n.marker)

/-- The text of a number. -/
def text (n : Numeral) : Rope Char := n.front ++ n.digits

/-- A number in a field. -/
def field (n : Numeral) (justify : Justify) (width : Nat) : Rope Char :=
  match justify with
  | .right => pad false ' ' width n.text
  | .left => pad true ' ' width n.text
  | .zeros => n.front ++ .fill (width - n.text.length) '0' ++ n.digits
  | .zerosBehind => pad true '0' width n.text
  | .unfilled => n.text

end Numeral

end FormattedOutput
