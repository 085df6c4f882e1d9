import FormattedOutput.Bytes

/-! The arguments of a formatted write, and the counts that it stores through some of them. -/

namespace FormattedOutput

/-- An argument of a formatted write. -/
inductive Argument where
  /-- An integer or an address, of which a conversion takes the low bits that it needs. -/
  | word (value : UInt64)
  /-- A number in the binary64 format. -/
  | double (bits : UInt64)
  /-- The address of a text that a zero byte ends. -/
  | text (bytes : Bytes)
  /-- The address of a text of wide characters that a zero ends. -/
  | wideText (codes : List Nat)
  /-- The address of a cell in which a count can be stored. -/
  | cell (index : Nat)
  deriving DecidableEq, Repr

/-- A count stored in a cell. -/
structure Store where
  cell : Nat
  /-- The number of bytes stored. -/
  size : Nat
  count : Nat
  deriving DecidableEq, Repr

/-- The cells after a count was stored. -/
def Store.apply (cells : List Bytes) (s : Store) : List Bytes :=
  cells.modify s.cell fun bytes => bytes.overlay 0 (Bytes.littleEndian s.size s.count)

end FormattedOutput
