/-! Byte strings, and the three things memory does with them: a text ends at its first zero, new
bytes are laid over old ones, and a count is stored lowest byte first. -/

namespace FormattedOutput

/-- A byte string. -/
abbrev Bytes := List UInt8

namespace Bytes

/-- The text that a zero byte ends: what stands before the first zero. -/
def untilZero (bs : Bytes) : Bytes := bs.takeWhile (· ≠ 0)

/-- `bs` with `new` laid over it from offset `start` on. -/
def overlay (bs : Bytes) (start : Nat) (new : Bytes) : Bytes :=
  bs.take start ++ new ++ bs.drop (start + new.length)

/-- The low `size` bytes of `n`, the lowest first. -/
def littleEndian : (size n : Nat) → Bytes
  | 0, _ => []
  | size + 1, n => UInt8.ofNat n :: littleEndian size (n / 256)

@[simp] theorem length_overlay {bs new : Bytes} {start : Nat} (h : start + new.length ≤ bs.length) :
    (bs.overlay start new).length = bs.length := by
  simp only [overlay, List.length_append, List.length_take, List.length_drop]
  omega

@[simp] theorem length_littleEndian (size n : Nat) : (littleEndian size n).length = size := by
  induction size generalizing n with
  | zero => rfl
  | succ size ih => simp [littleEndian, ih]

end Bytes

end FormattedOutput
