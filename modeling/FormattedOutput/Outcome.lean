import FormattedOutput.Argument
import FormattedOutput.Rope

/-! What a formatted write comes to, before any of it is stored: the text that it offers, chunk by
chunk, the counts that it stores, and how it ends. None of this depends on where the text goes or on
how much of it fits there. -/

namespace FormattedOutput

/-- Why a write fails. -/
inductive Cause where
  /-- The format ends inside a directive. -/
  | unfinished
  /-- A number is too large for an `int`. -/
  | oversized
  /-- A wide character has no byte. -/
  | unencodable
  /-- The formatter refuses a directive or a text. -/
  | refused
  deriving DecidableEq, Repr

/-- How a write ends. -/
inductive Ending where
  /-- The whole format was carried out. -/
  | done
  | failed (cause : Cause)
  /-- The process was aborted. -/
  | aborted
  /-- The arguments do not match the format, so that nothing can be said. -/
  | undefined
  deriving DecidableEq, Repr

/-- What a write comes to. -/
structure Outcome where
  /-- The text that was offered. -/
  text : Rope UInt8
  stores : List Store
  ending : Ending
  deriving DecidableEq, Repr

namespace Outcome

/-- A write that ends at once. -/
def finish (ending : Ending) : Outcome := ⟨⟨[]⟩, [], ending⟩

/-- A write that offers a text first. -/
def offer (text : Rope UInt8) (o : Outcome) : Outcome := { o with text := text ++ o.text }

/-- A write that stores a count first. -/
def store (s : Store) (o : Outcome) : Outcome := { o with stores := s :: o.stores }

/-- All the bytes that a write offers. -/
def bytes (o : Outcome) : Bytes := o.text.toList

@[simp] theorem bytes_finish (ending : Ending) : (finish ending).bytes = [] := rfl

@[simp] theorem bytes_offer (text : Rope UInt8) (o : Outcome) :
    (o.offer text).bytes = text.toList ++ o.bytes :=
  Rope.toList_append text o.text

@[simp] theorem bytes_store (s : Store) (o : Outcome) : (o.store s).bytes = o.bytes := rfl

end Outcome

end FormattedOutput
