import FormattedOutput.Buffer
import FormattedOutput.Freestanding.Format
import FormattedOutput.Hosted.Format
import FormattedOutput.Sink

/-! Calls of a formatter: a formatted write into a part of a buffer, and
what the caller sees of it. -/

namespace FormattedOutput

/-- The arguments of a call. An address that is null is `none`. -/
structure Request where
  /-- Where in the buffer the text goes. -/
  dest : Option Nat
  capacity : Nat
  format : Option Bytes
  args : List Argument
  /-- The error number before the call. -/
  errno : Int
  /-- The cells before the call. -/
  cells : List Bytes
  deriving DecidableEq, Repr

/-- Whether a call lacks a format, or room that it claims to have. -/
def Request.lacking (r : Request) : Bool := r.format.isNone || (r.dest.isNone && r.capacity ≠ 0)

/-- What a caller sees of a call that returns. -/
structure Reply where
  value : Int
  errno : Int
  buffer : Bytes
  cells : List Bytes
  deriving DecidableEq, Repr

/-- What becomes of a call. -/
inductive Result where
  | returned (reply : Reply)
  /-- The process was aborted. -/
  | aborted
  /-- The call breaks the formatter's contract, so that nothing can be said. -/
  | undefined
  deriving DecidableEq, Repr

/-- What becomes of a call whose write comes to an outcome and leaves a buffer. The value of a write
that is done is its length. The host's language keeps it in the range of an `int`; of the
freestanding one, texts of more bytes than an `int` can count are out of scope. -/
def Outcome.result (o : Outcome) (r : Request) (buffer : Bytes) : Result :=
  let cells := o.stores.foldl Store.apply r.cells
  match o.ending with
  | .done => .returned { value := o.text.length, errno := r.errno, buffer, cells }
  | .failed cause =>
    .returned { value := -1, errno := (Errno.ofCause cause).getD r.errno, buffer, cells }
  | .aborted => .aborted
  | .undefined => .undefined

/-- A call of the host's formatter. -/
def Hosted.call (r : Request) (buffer : Bytes) : Result :=
  match r.format with
  | none => .undefined
  | some fmt =>
    if r.lacking then .undefined
    else
      let o := Hosted.format fmt.untilZero r.args r.errno
      o.result r (Buffer.store buffer (r.dest.getD 0) r.capacity o.text)

/-- A call of the freestanding formatter, which writes through a sink. -/
def Freestanding.call (r : Request) (buffer : Bytes) : Result :=
  match r.format with
  | none => .undefined
  | some fmt =>
    if r.lacking then .undefined
    else
      let o := Freestanding.format fmt.untilZero r.args
      o.result r (Sink.store buffer (r.dest.getD 0) r.capacity (o.text.chunks.map Chunk.toList))

/-- A call that fails if it lacks what it needs, and changes nothing then. -/
def checked (call : Request → Bytes → Result) (r : Request) (buffer : Bytes) : Result :=
  if r.lacking then
    .returned { value := -1, errno := Errno.invalid, buffer, cells := r.cells }
  else call r buffer

end FormattedOutput
