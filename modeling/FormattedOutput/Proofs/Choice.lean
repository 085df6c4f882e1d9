import FormattedOutput.Selection.Choice

/-! The choice of an engine in terms of two things: the engines whose override is enabled, and
the first rule that fits. -/

namespace FormattedOutput.Selection

theorem filterAuxM_pure {m : Type → Type} [Monad m] [LawfulMonad m] {α : Type} (p : α → Bool)
    (xs acc : List α) :
    xs.filterAuxM (fun x => (pure (p x) : m Bool)) acc = pure ((xs.filter p).reverse ++ acc) := by
  induction xs generalizing acc with
  | nil => rfl
  | cons x xs ih =>
    rw [List.filterAuxM, pure_bind, ih]
    cases hx : p x <;> simp [hx]

/-- The engines whose override is enabled. -/
def overrides (enabled : String → Bool) : List Engine :=
  Engine.all.filter fun e => enabled e.feature

theorem mem_overrides {enabled : String → Bool} {e : Engine} :
    e ∈ overrides enabled ↔ enabled e.feature = true := by
  simp [overrides, Engine.mem_all]

theorem overrides_eq_nil_iff {enabled : String → Bool} :
    overrides enabled = [] ↔ ∀ e : Engine, ¬ enabled e.feature = true := by
  simp [List.eq_nil_iff_forall_not_mem, mem_overrides]

theorem overrides_eq_singleton_iff {enabled : String → Bool} {e : Engine} :
    overrides enabled = [e] ↔ ∀ e' : Engine, enabled e'.feature = true ↔ e' = e := by
  constructor
  · intro h e'
    rw [← mem_overrides, h, List.mem_singleton]
  · intro h
    have hfilter : overrides enabled = Engine.all.filter (· = e) :=
      List.filter_congr fun e' _ => Bool.eq_iff_iff.2 (by simpa using h e')
    rw [hfilter]
    cases e <;> rfl

variable {target : Target} {rules : List Rule} {enabled : String → Bool} {e : Engine}

theorem choose_eq (target : Target) (rules : List Rule) (enabled : String → Bool) :
    choose target rules enabled = choiceFrom (overrides enabled) rules target := by
  have h : Engine.all.filterM (fun e => (pure (enabled e.feature) : Id Bool)) =
      pure (overrides enabled) := by
    rw [List.filterM, filterAuxM_pure, pure_bind]
    simp [overrides]
  rw [choose, chooseM, h]
  rfl

/-- Whether a feature is enabled, with a record that it was asked for. -/
def ask (enabled : String → Bool) (feature : String) : StateM (List String) Bool := do
  modify (· ++ [feature])
  return enabled feature

theorem filterAuxM_ask (enabled : String → Bool) (engines acc : List Engine) (asked : List String) :
    (engines.filterAuxM (fun e => ask enabled e.feature) acc).run asked =
      pure ((engines.filter fun e => enabled e.feature).reverse ++ acc,
        asked ++ engines.map Engine.feature) := by
  induction engines generalizing acc asked with
  | nil => simp [List.filterAuxM]
  | cons e engines ih =>
    have hask : (ask enabled e.feature).run asked =
        pure (enabled e.feature, asked ++ [e.feature]) := rfl
    rw [List.filterAuxM, StateT.run_bind, hask, pure_bind, ih]
    cases he : enabled e.feature <;> simp [he]

/-- Every feature is asked for once, also behind those that already contradict each other. -/
theorem chooseAsking_eq (target : Target) (rules : List Rule) (enabled : String → Bool) :
    chooseAsking target rules enabled =
      (choose target rules enabled, Engine.all.map Engine.feature) := by
  have h : (Engine.all.filterM fun e => ask enabled e.feature).run [] =
      pure (overrides enabled, Engine.all.map Engine.feature) := by
    rw [List.filterM, StateT.run_bind, filterAuxM_ask, pure_bind]
    simp [overrides]
  have hrun : chooseAsking target rules enabled =
      Id.run ((Engine.all.filterM fun e => ask enabled e.feature).run [] >>= fun asked =>
        pure (choiceFrom asked.1 rules target, asked.2)) := rfl
  rw [hrun, h, choose_eq]
  rfl

/-- An engine is chosen by being the only override, or without any by the rules. -/
theorem choose_eq_ok_iff :
    choose target rules enabled = .ok e ↔
      overrides enabled = [e] ∨ overrides enabled = [] ∧ ruled rules target = some e := by
  rw [choose_eq]
  generalize overrides enabled = engines
  rcases engines with _ | ⟨first, _ | ⟨second, later⟩⟩
  · cases h : ruled rules target <;> simp [choiceFrom, h]
  · simp [choiceFrom]
  · simp [choiceFrom]

theorem ruled_cons (r : Rule) (rules : List Rule) (t : Target) :
    ruled (r :: rules) t = if r.fits t then some r.engine else ruled rules t := by
  unfold ruled
  rw [List.find?_cons]
  cases r.fits t <;> rfl

/-- The rules name only engines that some rule names. -/
theorem mem_of_ruled_eq_some (h : ruled rules target = some e) : ∃ r ∈ rules, r.engine = e := by
  obtain ⟨r, hfind, rfl⟩ := Option.map_eq_some_iff.1 h
  exact ⟨r, List.mem_of_find?_eq_some hfind, rfl⟩

/-- No target has the freestanding engine without an override. -/
theorem ruled_default_ne_freestanding : ruled defaultRules target ≠ some .freestanding := by
  intro h
  obtain ⟨r, hmem, hengine⟩ := mem_of_ruled_eq_some h
  have hall : ∀ r ∈ defaultRules, r.engine ≠ .freestanding := by decide
  exact hall r hmem hengine

end FormattedOutput.Selection
