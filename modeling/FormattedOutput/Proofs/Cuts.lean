/-! Texts cut at a separator, as lists of families and formats are. There is always a first piece,
no piece has a separator in it, and a front part without one belongs to the first piece. -/

namespace FormattedOutput

variable {α : Type} [BEq α] {a : α}

theorem exists_splitOn_eq_cons (a : α) (xs : List α) :
    ∃ piece pieces, xs.splitOn a = piece :: pieces :=
  List.exists_cons_of_ne_nil (List.splitOn_ne_nil a xs)

variable [LawfulBEq α]

theorem splitOn_append_of_not_mem {front : List α} (h : a ∉ front) (later : List α) :
    (front ++ later).splitOn a = (later.splitOn a).modifyHead (front ++ ·) := by
  induction front with
  | nil =>
    rw [List.nil_append]
    cases later.splitOn a <;> rfl
  | cons x front ih =>
    simp only [List.mem_cons, not_or] at h
    rw [List.cons_append, List.splitOn_cons_eq_if_modifyHead, if_neg (by simpa using Ne.symm h.1),
      ih h.2]
    cases later.splitOn a <;> rfl

theorem not_mem_of_mem_splitOn {xs piece : List α} (h : piece ∈ xs.splitOn a) : a ∉ piece := by
  induction xs generalizing piece with
  | nil => simp_all
  | cons x xs ih =>
    obtain ⟨first, later, hsplit⟩ := exists_splitOn_eq_cons a xs
    rw [List.splitOn_cons_eq_if_modifyHead, hsplit] at h
    rw [hsplit] at ih
    by_cases hx : (x == a) = true
    · rw [if_pos hx] at h
      rcases List.mem_cons.1 h with rfl | h
      · exact List.not_mem_nil
      · exact ih h
    · rw [if_neg hx, List.modifyHead_cons] at h
      rcases List.mem_cons.1 h with rfl | h
      · intro hmem
        rcases List.mem_cons.1 hmem with rfl | hmem
        · simp at hx
        · exact ih List.mem_cons_self hmem
      · exact ih (List.mem_cons_of_mem _ h)

end FormattedOutput
