import FormattedOutput.Bytes
import FormattedOutput.Rope

/-! Text stored in a part of a buffer: cut so that a zero byte fits behind it,
and ended by that byte. -/

namespace FormattedOutput.Buffer

/-- A buffer after a text was stored in the `capacity` bytes from `start` on. The bytes behind the
zero byte stay as they are, and without capacity so does all of the buffer. -/
def store (buffer : Bytes) (start capacity : Nat) (text : Rope UInt8) : Bytes :=
  if capacity = 0 then buffer else buffer.overlay start (text.take (capacity - 1) ++ [0])

end FormattedOutput.Buffer
