import FormattedOutput.Bytes

/-! A sink that takes any amount of text and keeps as much of it as it has room for. -/

namespace FormattedOutput

/-- Room for text, of which the front part is taken. -/
structure Sink where
  /-- The bytes taken, the last one first. -/
  taken : Bytes
  /-- The rest of the room, as it was. -/
  free : Bytes
  deriving DecidableEq, Repr

namespace Sink

/-- A sink with nothing in it. -/
def ofRoom (room : Bytes) : Sink := ⟨[], room⟩

/-- The number of bytes taken. -/
def filled (s : Sink) : Nat := s.taken.length

/-- All of the room. -/
def contents (s : Sink) : Bytes := s.taken.reverse ++ s.free

/-- A sink after a text was offered to it. What does not fit is dropped. -/
def write (s : Sink) : (text : Bytes) → Sink
  | [] => s
  | b :: text =>
    match s.free with
    | [] => s
    | _ :: free => write ⟨b :: s.taken, free⟩ text

/-- A sink after some texts were offered to it in order. -/
def writeAll (s : Sink) (texts : List Bytes) : Sink := texts.foldl write s

/-- A buffer after some texts were offered to a sink in the `capacity` bytes from `start` on. The
last of these bytes is kept free, so that a zero byte fits behind the text. -/
def store (buffer : Bytes) (start capacity : Nat) (texts : List Bytes) : Bytes :=
  if capacity = 0 then buffer
  else
    let s := (ofRoom ((buffer.drop start).take (capacity - 1))).writeAll texts
    (buffer.overlay start s.contents).overlay (start + s.filled) [0]

end Sink

end FormattedOutput
