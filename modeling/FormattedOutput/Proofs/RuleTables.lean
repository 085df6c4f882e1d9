import FormattedOutput.Proofs.Choice

/-! Tables of rules. A choice comes down to the override features and to the first rule that matches
the target (`choose_by_overrides_then_first_rule`), so that an edit of a table is safe if it leaves
the engine of the first match alone. A rule is dead behind one that covers it, and two neighbours
can be swapped if they are apart or name one engine. Any other two match a common target
(`Rule.exists_common_target`), for which the order decides. -/

namespace FormattedOutput.Selection

variable {t : Target} {r r' : Rule} {rules before after : List Rule}
  {enabled : String → Bool} {e : Engine}

/-! ## Matches -/

/-- A rule that matches a target: it does not ask for a property, or it asks for what the target
has. Of the families, a target has any number. -/
structure Rule.Matches (r : Rule) (t : Target) : Prop where
  os : r.os = none ∨ r.os = some t.os
  env : r.env = none ∨ r.env = some t.env
  abi : r.abi = none ∨ r.abi = some t.abi
  family : r.family = none ∨ ∃ f ∈ t.family, r.family = some f

theorem all_iff {want : Option String} {p : String → Bool} :
    want.all p = true ↔ want = none ∨ ∃ v, p v = true ∧ want = some v := by
  cases want with
  | none => simp
  | some v => simp

theorem all_beq_iff {want : Option String} {value : String} :
    want.all (· == value) = true ↔ want = none ∨ want = some value := by
  simp [all_iff]

theorem Rule.fits_iff : r.fits t = true ↔ r.Matches t := by
  simp only [fits, Bool.and_eq_true, all_beq_iff]
  rw [all_iff]
  simp only [List.contains_iff_mem]
  constructor
  · rintro ⟨⟨⟨hos, henv⟩, habi⟩, hfamily⟩
    exact ⟨hos, henv, habi, hfamily⟩
  · intro h
    exact ⟨⟨⟨h.os, h.env⟩, h.abi⟩, h.family⟩

theorem ruled_eq_some_iff :
    ruled rules t = some e ↔ ∃ before r after, rules = before ++ [r] ++ after ∧ r.engine = e ∧
      r.Matches t ∧ ∀ q ∈ before, ¬ q.Matches t := by
  simp only [ruled, Option.map_eq_some_iff, List.find?_eq_some_iff_append, Bool.not_eq_true',
    ← Bool.not_eq_true, Rule.fits_iff]
  constructor
  · rintro ⟨r, ⟨hr, before, after, rfl, hbefore⟩, rfl⟩
    exact ⟨before, r, after, by simp, rfl, hr, hbefore⟩
  · rintro ⟨before, r, after, rfl, rfl, hr, hbefore⟩
    exact ⟨r, ⟨hr, before, after, by simp, hbefore⟩, rfl⟩

theorem ruled_eq_none_iff : ruled rules t = none ↔ ∀ r ∈ rules, ¬ r.Matches t := by
  simp only [ruled, Option.map_eq_none_iff, List.find?_eq_none, Rule.fits_iff]

/-! ## Choices -/

theorem choose_of_ruled_eq {rules' : List Rule} (h : ruled rules t = ruled rules' t)
    (enabled : String → Bool) : choose t rules enabled = choose t rules' enabled := by
  simp only [choose_eq, choiceFrom, h]

theorem choose_eq_noEngine_iff (hnone : ∀ e : Engine, enabled e.feature = false) :
    choose t rules enabled = .error (.noEngine t) ↔ ruled rules t = none := by
  have hoverrides : overrides enabled = [] := overrides_eq_nil_iff.2 (by simp [hnone])
  rw [choose_eq, hoverrides]
  cases h : ruled rules t <;> simp [choiceFrom, h]

theorem choose_of_conflict {e' : Engine} (hne : e ≠ e') (he : enabled e.feature = true)
    (he' : enabled e'.feature = true) :
    choose t rules enabled =
      .error (.conflictingOverrides ((overrides enabled).map Engine.feature)) := by
  have hmem := mem_overrides.2 he
  have hmem' := mem_overrides.2 he'
  rw [choose_eq]
  generalize overrides enabled = engines at hmem hmem'
  rcases engines with _ | ⟨first, _ | ⟨second, later⟩⟩
  · cases hmem
  · exact absurd ((List.mem_singleton.1 hmem).trans (List.mem_singleton.1 hmem').symm) hne
  · rfl

theorem overrides_congr {enabled' : String → Bool}
    (h : ∀ e : Engine, enabled e.feature = enabled' e.feature) :
    overrides enabled = overrides enabled' :=
  List.filter_congr fun e _ => h e

/-- **Choices.** A choice asks for the four override features, for each once and in their order. One
that is enabled alone decides, whatever the target and the rules are; several contradict each other,
and the error names just these in their order. Without any, the first rule that matches the target
decides, and there is no engine if none does. No other feature matters. -/
theorem choose_by_overrides_then_first_rule (t : Target) (rules : List Rule)
    (enabled : String → Bool) :
    chooseAsking t rules enabled = (choose t rules enabled,
      ["engine-vsnprintf", "engine-ucrt", "engine-ucrt-standin", "engine-printf-compat"]) ∧
    (∀ e : Engine, (∀ e' : Engine, enabled e'.feature = true ↔ e' = e) →
      choose t rules enabled = .ok e) ∧
    (∀ e e' : Engine, e ≠ e' → enabled e.feature = true → enabled e'.feature = true →
      ∃ names, choose t rules enabled = .error (.conflictingOverrides names) ∧
        (∀ name, name ∈ names ↔ enabled name = true ∧ ∃ e : Engine, e.feature = name) ∧
        names.Nodup ∧ names.Sublist (Engine.all.map Engine.feature)) ∧
    ((∀ e : Engine, enabled e.feature = false) →
      (∀ e, choose t rules enabled = .ok e ↔
        ∃ before r after, rules = before ++ [r] ++ after ∧ r.engine = e ∧ r.Matches t ∧
          ∀ q ∈ before, ¬ q.Matches t) ∧
      (choose t rules enabled = .error (.noEngine t) ↔ ∀ r ∈ rules, ¬ r.Matches t)) ∧
    (∀ r : Rule, r.fits t = true ↔ r.Matches t) ∧
    ∀ enabled' : String → Bool, (∀ e : Engine, enabled e.feature = enabled' e.feature) →
      chooseAsking t rules enabled = chooseAsking t rules enabled' := by
  refine ⟨chooseAsking_eq t rules enabled, fun e he => ?_, fun e e' hne he he' => ?_,
    fun hnone => ⟨fun e => ?_, ?_⟩, fun r => Rule.fits_iff, fun enabled' h => ?_⟩
  · exact choose_eq_ok_iff.2 (.inl (overrides_eq_singleton_iff.2 he))
  · have hsublist :
        ((overrides enabled).map Engine.feature).Sublist (Engine.all.map Engine.feature) :=
      List.filter_sublist.map Engine.feature
    refine ⟨_, choose_of_conflict hne he he', fun name => ?_, hsublist.nodup (by decide), hsublist⟩
    simp only [List.mem_map, mem_overrides]
    constructor
    · rintro ⟨e, he, rfl⟩
      exact ⟨he, e, rfl⟩
    · rintro ⟨he, e, rfl⟩
      exact ⟨e, he, rfl⟩
  · have hoverrides : overrides enabled = [] := overrides_eq_nil_iff.2 (by simp [hnone])
    rw [choose_eq_ok_iff, ← ruled_eq_some_iff, hoverrides]
    simp
  · rw [choose_eq_noEngine_iff hnone, ruled_eq_none_iff]
  · rw [chooseAsking_eq, chooseAsking_eq, choose_eq, choose_eq, overrides_congr h]

/-! ## Edits -/

/-- A rule that is at least as general as another: it asks for no more. -/
structure Rule.Covers (r' r : Rule) : Prop where
  os : r'.os = none ∨ r'.os = r.os
  env : r'.env = none ∨ r'.env = r.env
  abi : r'.abi = none ∨ r'.abi = r.abi
  family : r'.family = none ∨ r'.family = r.family

/-- Two demands for one property that no target meets both. -/
def Differ (want want' : Option String) : Prop := ∃ v v', want = some v ∧ want' = some v' ∧ v ≠ v'

/-- Two rules that ask for different values of a property of which a target has just one. -/
def Rule.Apart (r r' : Rule) : Prop :=
  Differ r.os r'.os ∨ Differ r.env r'.env ∨ Differ r.abi r'.abi

theorem Rule.Covers.matches (H : r'.Covers r) (h : r.Matches t) : r'.Matches t := by
  refine ⟨?_, ?_, ?_, ?_⟩
  · exact H.os.elim .inl fun heq => heq ▸ h.os
  · exact H.env.elim .inl fun heq => heq ▸ h.env
  · exact H.abi.elim .inl fun heq => heq ▸ h.abi
  · exact H.family.elim .inl fun heq => heq ▸ h.family

theorem Differ.not_both {want want' : Option String} {value : String} (H : Differ want want')
    (h : want = none ∨ want = some value) : ¬ (want' = none ∨ want' = some value) := by
  obtain ⟨v, v', rfl, rfl, hne⟩ := H
  simp only [reduceCtorEq, Option.some.injEq, false_or] at h ⊢
  rintro rfl
  exact hne h

theorem Rule.Apart.not_matches (H : r.Apart r') (h : r.Matches t) : ¬ r'.Matches t := by
  intro h'
  rcases H with H | H | H
  · exact H.not_both h.os h'.os
  · exact H.not_both h.env h'.env
  · exact H.not_both h.abi h'.abi

theorem exists_common_value {want want' : Option String} (h : ¬ Differ want want') :
    ∃ value, (want = none ∨ want = some value) ∧ (want' = none ∨ want' = some value) := by
  cases want with
  | none =>
    cases want' with
    | none => exact ⟨"", .inl rfl, .inl rfl⟩
    | some v' => exact ⟨v', .inl rfl, .inr rfl⟩
  | some v =>
    refine ⟨v, .inr rfl, ?_⟩
    cases want' with
    | none => exact .inl rfl
    | some v' =>
      have heq : v = v' := Decidable.byContradiction fun hne => h ⟨v, v', rfl, rfl, hne⟩
      exact .inr (congrArg some heq.symm)

/-- Families never keep two rules apart, as a target can have both. -/
theorem Rule.exists_common_target (h : ¬ r.Apart r') : ∃ t, r.Matches t ∧ r'.Matches t := by
  simp only [Apart, not_or] at h
  obtain ⟨os, hos, hos'⟩ := exists_common_value h.1
  obtain ⟨env, henv, henv'⟩ := exists_common_value h.2.1
  obtain ⟨abi, habi, habi'⟩ := exists_common_value h.2.2
  have hfamily {want : Option String} {families : List String} (hmem : ∀ f ∈ want, f ∈ families) :
      want = none ∨ ∃ f ∈ families, want = some f := by
    cases want with
    | none => exact .inl rfl
    | some f => exact .inr ⟨f, hmem f rfl, rfl⟩
  refine ⟨{ os, env, abi, family := r.family.toList ++ r'.family.toList }, ⟨hos, henv, habi, ?_⟩,
    ⟨hos', henv', habi', ?_⟩⟩
  · exact hfamily fun f hf => List.mem_append_left _ (Option.mem_toList.2 hf)
  · exact hfamily fun f hf => List.mem_append_right _ (Option.mem_toList.2 hf)

theorem ruled_append (front back : List Rule) (t : Target) :
    ruled (front ++ back) t = (ruled front t).or (ruled back t) := by
  rw [ruled, List.find?_append, Option.map_or]
  rfl

theorem ruled_erase (hr' : r' ∈ before) (H : r'.Covers r) (t : Target) (after : List Rule) :
    ruled (before ++ r :: after) t = ruled (before ++ after) t := by
  rw [ruled_append, ruled_append, ruled_cons]
  by_cases hfits : r.fits t = true
  · -- the rule in front of it decides already
    have hsome : ruled before t ≠ none := fun hnone =>
      ruled_eq_none_iff.1 hnone r' hr' (H.matches (Rule.fits_iff.1 hfits))
    obtain ⟨e, he⟩ := Option.ne_none_iff_exists'.1 hsome
    rw [he, Option.some_or, Option.some_or]
  · rw [if_neg hfits]

theorem ruled_swap (h : r.Apart r' ∨ r.engine = r'.engine) (t : Target) (before after : List Rule) :
    ruled (before ++ r :: r' :: after) t = ruled (before ++ r' :: r :: after) t := by
  rw [ruled_append, ruled_append]
  simp only [ruled_cons]
  by_cases hfits : r.fits t = true
  · by_cases hfits' : r'.fits t = true
    · have hengine : r.engine = r'.engine :=
        h.resolve_left fun H => H.not_matches (Rule.fits_iff.1 hfits) (Rule.fits_iff.1 hfits')
      rw [if_pos hfits, if_pos hfits', hengine]
    · simp only [hfits', Bool.false_eq_true, if_false]
  · simp only [hfits, Bool.false_eq_true, if_false]

theorem choose_of_first_matches (hnone : ∀ e : Engine, enabled e.feature = false) (h : r.Matches t)
    (after : List Rule) : choose t (r :: after) enabled = .ok r.engine := by
  refine choose_eq_ok_iff.2 (.inr ⟨overrides_eq_nil_iff.2 (by simp [hnone]), ?_⟩)
  rw [ruled_cons, if_pos (Rule.fits_iff.2 h)]

/-- **Safe edits.** No choice changes if a rule is deleted that has a rule at least as
general before it, or if two neighbours are swapped that are apart or name one engine. Of
any other two neighbours at the head of a table the order decides for some target,
whatever families they ask for. -/
theorem choose_after_safe_edits :
    (∀ (t : Target) (enabled : String → Bool) (before after : List Rule) (r : Rule),
      (∃ r' ∈ before, r'.Covers r) →
        choose t (before ++ r :: after) enabled = choose t (before ++ after) enabled) ∧
    (∀ (t : Target) (enabled : String → Bool) (before after : List Rule) (r r' : Rule),
      r.Apart r' ∨ r.engine = r'.engine →
        choose t (before ++ r :: r' :: after) enabled =
          choose t (before ++ r' :: r :: after) enabled) ∧
    ∀ (after : List Rule) (r r' : Rule), r.engine ≠ r'.engine → ¬ r.Apart r' →
      ∃ t : Target, ∀ enabled : String → Bool, (∀ e : Engine, enabled e.feature = false) →
        choose t (r :: r' :: after) enabled ≠ choose t (r' :: r :: after) enabled := by
  refine ⟨fun t enabled before after r hcovered => ?_, fun t enabled before after r r' h => ?_,
    fun after r r' hengine happart => ?_⟩
  · obtain ⟨r', hr', H⟩ := hcovered
    exact choose_of_ruled_eq (ruled_erase hr' H t after) enabled
  · exact choose_of_ruled_eq (ruled_swap h t before after) enabled
  · obtain ⟨t, h, h'⟩ := Rule.exists_common_target happart
    refine ⟨t, fun enabled hnone heq => hengine ?_⟩
    rw [choose_of_first_matches hnone h, choose_of_first_matches hnone h'] at heq
    exact Except.ok.inj heq

/-- Two rules of the default table: that for LLVM has to stand before that
for any GNU environment. -/
theorem choose_after_safe_edits_llvm :
    let llvm : Rule :=
      { os := some "windows", env := some "gnu", abi := some "llvm", engine := .hosted }
    let gnu : Rule := { os := some "windows", env := some "gnu", engine := .standIn }
    gnu.Covers llvm ∧ ¬ llvm.Apart gnu ∧ ∃ t : Target, ∀ enabled : String → Bool,
      (∀ e : Engine, enabled e.feature = false) →
        choose t (llvm :: gnu :: []) enabled ≠ choose t (gnu :: llvm :: []) enabled := by
  intro llvm gnu
  have happart : ¬ llvm.Apart gnu := by simp [Rule.Apart, Differ, llvm, gnu]
  exact ⟨⟨.inr rfl, .inr rfl, .inl rfl, .inl rfl⟩, happart,
    choose_after_safe_edits.2.2 [] llvm gnu (by decide) happart⟩

end FormattedOutput.Selection
