import FormattedOutput.Bytes
import FormattedOutput.Rope

/-! UTF-8 text as byte strings: `encode` writes characters, and `decode?` reads back exactly what
`encode` writes. -/

namespace FormattedOutput.Utf8

/-- The bytes of a list of characters. -/
def encode (cs : List Char) : Bytes := cs.flatMap String.utf8EncodeChar

/-- The bytes of a chunk of characters. -/
def encodeChunk : Chunk Char → Chunk UInt8
  | .items cs => .items (encode cs)
  | .fill count c =>
    match String.utf8EncodeChar c with
    | [b] => .fill count b
    | bytes => .items (List.replicate count bytes).flatten

/-- The bytes of a text in chunks. -/
def encodeRope (r : Rope Char) : Rope UInt8 := ⟨r.chunks.map encodeChunk⟩

/-- The characters of a byte string, if it is UTF-8. -/
def decode? (bs : Bytes) : Option (List Char) :=
  (String.fromUTF8? bs.toByteArray).map String.toList

/-- A byte string is UTF-8 if it is the encoding of some characters. -/
def Valid (bs : Bytes) : Prop := ∃ cs, bs = encode cs

/-- The character that starts a byte string and the number of its bytes, if one does. -/
def first? (bs : Bytes) : Option (Char × Nat) :=
  [1, 2, 3, 4].findSome? fun size =>
    match decode? (bs.take size) with
    | some [c] => some (c, size)
    | _ => none

@[simp] theorem encode_nil : encode [] = [] := rfl

@[simp] theorem encode_append (cs ds : List Char) : encode (cs ++ ds) = encode cs ++ encode ds := by
  simp [encode]

theorem encode_replicate (count : Nat) (c : Char) :
    encode (List.replicate count c) = (List.replicate count (String.utf8EncodeChar c)).flatten := by
  simp [encode, List.flatMap_def]

theorem toList_encodeChunk (c : Chunk Char) : (encodeChunk c).toList = encode c.toList := by
  cases c with
  | items cs => rfl
  | fill count c =>
    rcases h : String.utf8EncodeChar c with _ | ⟨b, _ | ⟨b', bs⟩⟩ <;>
      simp [encodeChunk, Chunk.toList, encode_replicate, h]

@[simp] theorem toList_encodeRope (r : Rope Char) : (encodeRope r).toList = encode r.toList := by
  simp [encodeRope, Rope.toList, encode, List.flatMap_map, List.flatMap_assoc, toList_encodeChunk]

theorem decode?_eq_some_iff {bs : Bytes} {cs : List Char} :
    decode? bs = some cs ↔ bs = encode cs := by
  have key (s : String) : s.toByteArray = (encode s.toList).toByteArray :=
    String.utf8Encode_toList.symm
  have inj {as bs : Bytes} (h : as.toByteArray = bs.toByteArray) : as = bs := by
    have := congrArg (fun b => b.data.toList) h
    simpa using this
  unfold decode? String.fromUTF8?
  constructor
  · intro h
    split at h
    · simp only [Option.map_some, Option.some.injEq] at h
      subst h
      exact inj (key (.fromUTF8 _ _))
    · simp at h
  · rintro rfl
    have hv : (encode cs).toByteArray.IsValidUTF8 := ⟨cs, rfl⟩
    rw [dif_pos hv, Option.map_some, Option.some.injEq]
    have hs : String.fromUTF8 _ hv = String.ofList cs :=
      String.toByteArray_inj.1 (by simp [encode, List.utf8Encode, String.fromUTF8])
    rw [hs, String.toList_ofList]

theorem encode_inj {cs ds : List Char} : encode cs = encode ds ↔ cs = ds := by
  refine ⟨fun h => ?_, fun h => h ▸ rfl⟩
  have hdecode := decode?_eq_some_iff.2 h
  rw [decode?_eq_some_iff.2 rfl, Option.some.injEq] at hdecode
  exact hdecode

end FormattedOutput.Utf8
