import FormattedOutput.Proofs.Cuts
import FormattedOutput.Template

/-! Formats read from left to right. The stretches between percent signs are cut all at once, but
what stands in front of a format, in a directive and behind it can be read one after the other:
`parse_append_percent` takes a literal text away from the front of a format, and `behind_directive`
and `behind_percentSign` take a directive away from what a percent sign starts. -/

namespace FormattedOutput.Template

variable {σ : Type} {scan : Bytes → σ × Bytes} {front text : Bytes} {spec : σ}

/-- The parts of what stands behind a percent sign. -/
def behind (scan : Bytes → σ × Bytes) (bs : Bytes) : List (Item σ) :=
  items scan (bs.splitOn percent)

theorem parse_of_not_mem (h : percent ∉ text) : parse scan text = [.literal text] := by
  rw [parse, List.splitOn_eq_singleton h]
  rfl

theorem parse_append_percent (h : percent ∉ text) (later : Bytes) :
    parse scan (text ++ percent :: later) = .literal text :: behind scan later := by
  rw [parse, List.splitOn_append_cons_self_of_not_mem h]
  rfl

theorem behind_directive {letter : UInt8} (hfront : percent ∉ front) (hletter : letter ≠ percent)
    (hscan : ∀ later, scan (front ++ letter :: later) = (spec, letter :: later)) (text : Bytes) :
    behind scan (front ++ letter :: text) = .directive spec letter :: parse scan text := by
  have hmem : percent ∉ front ++ [letter] := by simp [hfront, hletter.symm]
  obtain ⟨stretch, stretches, hsplit⟩ := exists_splitOn_eq_cons percent text
  have hsplit' : (front ++ letter :: text).splitOn percent =
      (front ++ letter :: stretch) :: stretches := by
    rw [List.append_cons, splitOn_append_of_not_mem hmem, hsplit, List.modifyHead_cons,
      List.append_assoc]
    rfl
  rw [behind, hsplit', parse, hsplit]
  cases stretches <;> simp [items, hscan]

/-- A directive that reaches the next percent sign. -/
theorem behind_percentSign (hfront : percent ∉ front) (hscan : scan front = (spec, []))
    (text : Bytes) :
    behind scan (front ++ percent :: text) = .directive spec percent :: parse scan text := by
  obtain ⟨stretch, stretches, hsplit⟩ := exists_splitOn_eq_cons percent text
  rw [behind, List.splitOn_append_cons_self_of_not_mem hfront, parse, hsplit]
  simp [items, hscan]

/-! ## Two formats -/

/-- The stretches of two formats, where the last of the one and the first of
the other are one stretch. -/
def seam : List Bytes → List Bytes → List Bytes
  | [], later => later
  | [last], first :: later => (last ++ first) :: later
  | [last], [] => [last]
  | stretch :: next :: stretches, later => stretch :: seam (next :: stretches) later

theorem splitOn_append (front later : Bytes) :
    (front ++ later).splitOn percent = seam (front.splitOn percent) (later.splitOn percent) := by
  obtain ⟨first, others, hlater⟩ := exists_splitOn_eq_cons percent later
  induction front with
  | nil => simp [hlater, seam]
  | cons b front ih =>
    obtain ⟨stretch, stretches, hfront⟩ := exists_splitOn_eq_cons percent front
    rw [List.cons_append, List.splitOn_cons_eq_if_modifyHead,
      List.splitOn_cons_eq_if_modifyHead, ih, hfront, hlater]
    by_cases hb : (b == percent) = true
    · simp only [if_pos hb, seam]
    · simp only [if_neg hb]
      cases stretches <;> rfl

theorem items_of_letter {stretch text : Bytes} {letter : UInt8}
    (h : scan stretch = (spec, letter :: text)) (stretches : List Bytes) :
    items scan (stretch :: stretches) =
      .directive spec letter :: .literal text :: items scan stretches := by
  cases stretches <;> simp [items, h]

/-- All parts of a format, by the stretches that they come from. -/
theorem forall_mem_items {P : Item σ → Prop} {stretches : List Bytes}
    (hliteral : ∀ stretch ∈ stretches, P (.literal stretch))
    (hdirective : ∀ stretch ∈ stretches, ∀ spec letter text, scan stretch = (spec, letter :: text) →
      P (.directive spec letter) ∧ P (.literal text))
    (hend : ∀ stretch ∈ stretches, ∀ spec, scan stretch = (spec, []) →
      P (.directive spec percent) ∧ P (.unfinished spec)) :
    ∀ item ∈ items scan stretches, P item := by
  fun_induction items scan stretches with
  | case1 => simp
  | case2 stretch spec letter text hscan =>
    obtain ⟨hletter, htext⟩ := hdirective stretch List.mem_cons_self spec letter text hscan
    simp [hletter, htext]
  | case3 stretch spec hscan => simpa using (hend stretch List.mem_cons_self spec hscan).2
  | case4 stretch next later spec letter text hscan ih =>
    obtain ⟨hletter, htext⟩ := hdirective stretch List.mem_cons_self spec letter text hscan
    simp only [List.forall_mem_cons]
    exact ⟨hletter, htext, ih (fun s hs => hliteral s (List.mem_cons_of_mem _ hs))
      (fun s hs => hdirective s (List.mem_cons_of_mem _ hs))
      (fun s hs => hend s (List.mem_cons_of_mem _ hs))⟩
  | case5 stretch next later spec hscan ih =>
    have hmem {s : Bytes} (hs : s ∈ later) : s ∈ stretch :: next :: later :=
      List.mem_cons_of_mem _ (List.mem_cons_of_mem _ hs)
    simp only [List.forall_mem_cons]
    exact ⟨(hend stretch List.mem_cons_self spec hscan).1,
      hliteral next (List.mem_cons_of_mem _ List.mem_cons_self),
      ih (fun s hs => hliteral s (hmem hs))
      (fun s hs => hdirective s (hmem hs)) (fun s hs => hend s (hmem hs))⟩

theorem forall_mem_parse {P : Item σ → Prop} {fmt : Bytes}
    (hliteral : ∀ stretch ∈ fmt.splitOn percent, P (.literal stretch))
    (hdirective : ∀ stretch ∈ fmt.splitOn percent, ∀ spec letter text,
      scan stretch = (spec, letter :: text) → P (.directive spec letter) ∧ P (.literal text))
    (hend : ∀ stretch ∈ fmt.splitOn percent, ∀ spec, scan stretch = (spec, []) →
      P (.directive spec percent) ∧ P (.unfinished spec)) :
    ∀ item ∈ parse scan fmt, P item := by
  obtain ⟨stretch, stretches, hsplit⟩ := exists_splitOn_eq_cons percent fmt
  rw [hsplit] at hliteral hdirective hend
  rw [parse, hsplit]
  refine List.forall_mem_cons.2 ⟨hliteral stretch List.mem_cons_self, forall_mem_items ?_ ?_ ?_⟩
  · exact fun s hs => hliteral s (List.mem_cons_of_mem _ hs)
  · exact fun s hs => hdirective s (List.mem_cons_of_mem _ hs)
  · exact fun s hs => hend s (List.mem_cons_of_mem _ hs)

/-- A part that does not reach the end of its format. Its letter shows where it
ends, if it is a directive. -/
def Closed (isLetter : UInt8 → Prop) : Item σ → Prop
  | .literal _ => True
  | .directive _ letter => isLetter letter
  | .unfinished _ => False

variable {isLetter : UInt8 → Prop}

theorem items_seam
    (hscan : ∀ bs spec letter text, isLetter letter → scan bs = (spec, letter :: text) →
      ∀ later, scan (bs ++ later) = (spec, letter :: (text ++ later)))
    {stretches : List Bytes} (hne : stretches ≠ [])
    (hclosed : ∀ item ∈ items scan stretches, Closed isLetter item) :
    ∃ before text, items scan stretches = before ++ [.literal text] ∧
      ∀ first later, items scan (seam stretches (first :: later)) =
        before ++ .literal (text ++ first) :: items scan later := by
  fun_induction items scan stretches with
  | case1 => exact absurd rfl hne
  | case2 stretch spec letter text hstretch =>
    refine ⟨[.directive spec letter], text, rfl, fun first later => ?_⟩
    exact items_of_letter (hscan _ _ _ _ (hclosed _ List.mem_cons_self) hstretch first) later
  | case3 stretch spec hstretch => exact absurd (hclosed _ List.mem_cons_self) id
  | case4 stretch next others spec letter text hstretch ih =>
    simp only [List.forall_mem_cons] at hclosed
    obtain ⟨before, last, hitems, hseam⟩ := ih (by simp) hclosed.2.2
    refine ⟨.directive spec letter :: .literal text :: before, last, by rw [hitems]; rfl,
      fun first later => ?_⟩
    rw [seam, items_of_letter hstretch, hseam]
    rfl
  | case5 stretch next others spec hstretch ih =>
    simp only [List.forall_mem_cons] at hclosed
    cases others with
    | nil =>
      refine ⟨[.directive spec percent], next, rfl, fun first later => ?_⟩
      simp [seam, items, hstretch]
    | cons other others =>
      obtain ⟨before, last, hitems, hseam⟩ := ih (by simp) hclosed.2.2
      refine ⟨.directive spec percent :: .literal next :: before, last, by rw [hitems]; rfl,
        fun first later => ?_⟩
      simp only [seam, items, hstretch]
      rw [hseam]
      rfl

theorem parse_append
    (hscan : ∀ bs spec letter text, isLetter letter → scan bs = (spec, letter :: text) →
      ∀ later, scan (bs ++ later) = (spec, letter :: (text ++ later)))
    {fmt : Bytes} (hclosed : ∀ item ∈ parse scan fmt, Closed isLetter item) (other : Bytes) :
    ∃ before last first later, parse scan fmt = before ++ [.literal last] ∧
      parse scan other = .literal first :: later ∧
      parse scan (fmt ++ other) = before ++ .literal (last ++ first) :: later := by
  obtain ⟨text, stretches, hfmt⟩ := exists_splitOn_eq_cons percent fmt
  obtain ⟨first, others, hother⟩ := exists_splitOn_eq_cons percent other
  simp only [parse, splitOn_append, hfmt, hother] at hclosed ⊢
  cases stretches with
  | nil => exact ⟨[], text, first, items scan others, rfl, rfl, rfl⟩
  | cons stretch stretches =>
    obtain ⟨before, last, hitems, hseam⟩ :=
      items_seam hscan (List.cons_ne_nil stretch stretches) fun item hmem =>
        hclosed item (List.mem_cons_of_mem _ hmem)
    refine ⟨.literal text :: before, last, first, items scan others, by rw [hitems]; rfl, rfl, ?_⟩
    simp only [seam]
    rw [hseam]
    rfl

end FormattedOutput.Template
