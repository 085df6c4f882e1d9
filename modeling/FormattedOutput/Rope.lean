/-! Text in chunks, where a repeated item takes no more room than a single one. A field can be
filled by billions of items, of which a buffer keeps a few. `toList` is all of the text, and
`length` and `take` say how long it is and how it starts without writing it out. -/

namespace FormattedOutput

variable {α β : Type}

/-- A chunk of text. -/
inductive Chunk (α : Type) where
  /-- Items as they stand. -/
  | items (xs : List α)
  /-- One item, repeated. -/
  | fill (count : Nat) (x : α)
  deriving DecidableEq, Repr

namespace Chunk

/-- The items of a chunk. -/
def toList : Chunk α → List α
  | items xs => xs
  | fill count x => List.replicate count x

/-- The number of items of a chunk. -/
def length : Chunk α → Nat
  | items xs => xs.length
  | fill count _ => count

/-- At most `n` items from the start of a chunk. -/
def take (n : Nat) : Chunk α → List α
  | items xs => xs.take n
  | fill count x => List.replicate (min n count) x

/-- A chunk with every item changed. -/
def map (f : α → β) : Chunk α → Chunk β
  | items xs => items (xs.map f)
  | fill count x => fill count (f x)

@[simp] theorem length_toList (c : Chunk α) : c.toList.length = c.length := by
  cases c <;> simp [toList, length]

@[simp] theorem take_eq (n : Nat) (c : Chunk α) : c.take n = c.toList.take n := by
  cases c <;> simp [take, toList]

@[simp] theorem toList_map (f : α → β) (c : Chunk α) : (c.map f).toList = c.toList.map f := by
  cases c <;> simp [map, toList]

end Chunk

/-- A text in chunks. -/
structure Rope (α : Type) where
  chunks : List (Chunk α)
  deriving DecidableEq, Repr

namespace Rope

/-- A text as it stands. -/
def ofList (xs : List α) : Rope α := ⟨[.items xs]⟩

/-- A text of one item, repeated. -/
def fill (count : Nat) (x : α) : Rope α := ⟨[.fill count x]⟩

instance : Append (Rope α) := ⟨fun r s => ⟨r.chunks ++ s.chunks⟩⟩

/-- All of a text. -/
def toList (r : Rope α) : List α := r.chunks.flatMap Chunk.toList

/-- The length of a text. -/
def length (r : Rope α) : Nat := r.chunks.foldr (fun c n => c.length + n) 0

/-- At most `n` items from the start of some chunks. -/
def takeChunks : (n : Nat) → List (Chunk α) → List α
  | _, [] => []
  | 0, _ => []
  | n + 1, c :: cs => c.take (n + 1) ++ takeChunks (n + 1 - c.length) cs

/-- At most `n` items from the start of a text. -/
def take (r : Rope α) (n : Nat) : List α := takeChunks n r.chunks

/-- A text with every item changed. -/
def map (f : α → β) (r : Rope α) : Rope β := ⟨r.chunks.map (Chunk.map f)⟩

@[simp] theorem toList_ofList (xs : List α) : (ofList xs).toList = xs := by
  simp [toList, ofList, Chunk.toList]

@[simp] theorem toList_fill (count : Nat) (x : α) :
    (fill count x).toList = List.replicate count x := by
  simp [toList, fill, Chunk.toList]

@[simp] theorem toList_append (r s : Rope α) : (r ++ s).toList = r.toList ++ s.toList :=
  List.flatMap_append

@[simp] theorem length_toList (r : Rope α) : r.toList.length = r.length := by
  obtain ⟨chunks⟩ := r
  induction chunks with
  | nil => rfl
  | cons c chunks ih =>
    simp only [toList, length, List.flatMap_cons, List.length_append, List.foldr_cons] at ih ⊢
    rw [ih, Chunk.length_toList]

@[simp] theorem length_ofList (xs : List α) : (ofList xs).length = xs.length := by
  simp [← length_toList]

@[simp] theorem length_fill (count : Nat) (x : α) : (fill count x).length = count := by
  simp [← length_toList]

@[simp] theorem length_append (r s : Rope α) : (r ++ s).length = r.length + s.length := by
  simp [← length_toList]

@[simp] theorem toList_map (f : α → β) (r : Rope α) : (r.map f).toList = r.toList.map f := by
  simp [toList, map, List.flatMap_map, List.map_flatMap]

theorem append_assoc (r s t : Rope α) : r ++ s ++ t = r ++ (s ++ t) :=
  congrArg Rope.mk (List.append_assoc ..)

theorem append_nil (r : Rope α) : r ++ ⟨[]⟩ = r :=
  congrArg Rope.mk (List.append_nil _)

theorem takeChunks_eq (n : Nat) (cs : List (Chunk α)) :
    takeChunks n cs = (cs.flatMap Chunk.toList).take n := by
  induction cs generalizing n with
  | nil => simp [takeChunks]
  | cons c cs ih =>
    cases n with
    | zero => simp [takeChunks]
    | succ n => simp [takeChunks, ih, List.take_append]

@[simp] theorem take_eq (r : Rope α) (n : Nat) : r.take n = r.toList.take n :=
  takeChunks_eq n r.chunks

end Rope

end FormattedOutput
