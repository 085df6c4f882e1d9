import FormattedOutput.Proofs.Policy
import FormattedOutput.Proofs.RuleTables

/-! Lists of families as the value of a variable. A comma cuts a list in two (`families_append`),
empty parts count for nothing, and so a list of names can be read back from its parts joined by
commas (`families_join`). What cannot be the name of a family is never read as one, and a rule that
asks for it fits no target that an environment describes. -/

namespace FormattedOutput.Selection

/-- What can be the name of a family: a text that is not empty and has no comma in it. -/
def IsFamilyName (f : String) : Prop := f ≠ "" ∧ ',' ∉ f.toList

theorem not_isFamilyName_iff {f : String} : ¬ IsFamilyName f ↔ f = "" ∨ ',' ∈ f.toList := by
  rw [IsFamilyName, Classical.not_and_iff_not_or_not, Classical.not_not, Classical.not_not]

theorem isFamilyName_of_mem {s f : String} (h : f ∈ families s) : IsFamilyName f := by
  obtain ⟨part, hpart, rfl⟩ := List.mem_map.1 h
  obtain ⟨hcut, hne⟩ := List.mem_filter.1 hpart
  refine ⟨fun hempty => ?_, ?_⟩
  · rw [← String.toList_eq_nil_iff, String.toList_ofList] at hempty
    simp [hempty] at hne
  · rw [String.toList_ofList]
    exact not_mem_of_mem_splitOn hcut

/-- A comma ends the families before it, whatever they are. -/
theorem families_append (s t : String) : families (s ++ "," ++ t) = families s ++ families t := by
  have hlist : (s ++ "," ++ t).toList = s.toList ++ ',' :: t.toList := by simp
  rw [families, hlist, List.splitOn_append_cons_self, List.filter_append, List.map_append]
  rfl

theorem families_join {names : List String} (h : ∀ f ∈ names, IsFamilyName f) :
    families (",".intercalate names) = names := by
  rw [families_intercalate fun f hf => (h f hf).2, List.filter_eq_self]
  intro f hf
  exact decide_eq_true (h f hf).1

theorem families_join_families (s : String) :
    families (",".intercalate (families s)) = families s :=
  families_join fun _ => isFamilyName_of_mem

namespace Environment

/-- The families that an environment describes if their variable has a text for its value. -/
def familiesIn (env : Environment) (s : String) : List String :=
  (env.set "CARGO_CFG_TARGET_FAMILY" (Utf8.encode s.toList)).target.family

theorem familiesIn_eq (env : Environment) (s : String) : env.familiesIn s = families s := by
  have hvalue :
      (env.set "CARGO_CFG_TARGET_FAMILY" (Utf8.encode s.toList)) "CARGO_CFG_TARGET_FAMILY" =
      some (Utf8.encode s.toList) := if_pos rfl
  rw [familiesIn, target, (ReadAs.value hvalue).textOrEmpty_eq, String.ofList_toList]

/-- **Lists of families.** In every environment the families are names that are not empty and have
no comma. A list of such names, joined by commas, is read back as it was; a text of two lists with a
comma between them is read as the one list and then the other; and what is read from any text can be
joined and read again. A rule that asks for a family that is empty or has a comma fits no target
that an environment describes. -/
theorem family_list_round_trip (env : Environment) :
    (∀ f ∈ env.target.family, f ≠ "" ∧ ',' ∉ f.toList) ∧
    (∀ names : List String, (∀ f ∈ names, f ≠ "" ∧ ',' ∉ f.toList) →
      env.familiesIn (",".intercalate names) = names) ∧
    (∀ s t : String, env.familiesIn (s ++ "," ++ t) = env.familiesIn s ++ env.familiesIn t) ∧
    (∀ s : String, env.familiesIn (",".intercalate (env.familiesIn s)) = env.familiesIn s) ∧
    ∀ (r : Rule) (f : String), r.family = some f → f = "" ∨ ',' ∈ f.toList →
      r.fits env.target = false := by
  have hnames : ∀ f ∈ env.target.family, IsFamilyName f := fun _ => isFamilyName_of_mem
  simp only [familiesIn_eq]
  refine ⟨hnames, fun names => families_join, families_append, families_join_families,
    fun r f hfamily hf => ?_⟩
  rw [Bool.eq_false_iff, ne_eq, Rule.fits_iff]
  intro hmatches
  rcases hmatches.family with hnone | ⟨f', hmem, hsome⟩
  · rw [hnone] at hfamily
    cases hfamily
  · rw [hsome, Option.some.injEq] at hfamily
    subst hfamily
    exact not_isFamilyName_iff.2 hf (hnames _ hmem)

end Environment

end FormattedOutput.Selection
