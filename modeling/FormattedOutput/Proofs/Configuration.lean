import FormattedOutput.Proofs.Choice
import FormattedOutput.Selection.Parts

/-! The configuration of a build, from a run of the script that finds no fault to the parts of the
program that are compiled in. `Configured` says what such a run prints; the settings of the build
are then known (`Configured.mem_settings_iff`), and every gate can be read off them. -/

namespace FormattedOutput.Selection

/-- Whether a line starts with a text. -/
def starts (front line : String) : Bool := front.toList.isPrefixOf line.toList

/-- The parts that the engine of a build is made of: the engine itself, the module around
it, and all that it calls. -/
def Part.usedBy (e : Engine) : List Part :=
  ofEngine e ::
    match e with
    | .hosted | .freestanding => []
    | .standIn => [ucrtModule, standInEntry, hosted]
    | .ucrt => [ucrtModule, ucrtEntry]

theorem engineSetting_ne_hostSetting (e : Engine) : engineSetting e ≠ hostSetting := by
  cases e <;> decide +kernel

theorem engineSetting_ne_featureSetting (e e' : Engine) :
    engineSetting e ≠ featureSetting e'.feature := by
  cases e <;> cases e' <;> decide +kernel

theorem engineSetting_inj {e e' : Engine} : engineSetting e = engineSetting e' ↔ e = e' := by
  refine ⟨fun h => ?_, fun h => h ▸ rfl⟩
  revert h
  cases e <;> cases e' <;> decide +kernel

theorem hostSetting_ne_featureSetting (e : Engine) : hostSetting ≠ featureSetting e.feature := by
  cases e <;> decide +kernel

theorem featureSetting_inj {e e' : Engine} :
    featureSetting e.feature = featureSetting e'.feature ↔ e = e' := by
  refine ⟨fun h => ?_, fun h => h ▸ rfl⟩
  revert h
  cases e <;> cases e' <;> decide +kernel

theorem setting?_append (s : String) : setting? ("cargo:rustc-cfg=" ++ s) = some s := by
  simp [setting?]

theorem engineLine_eq (e : Engine) :
    "cargo:rustc-cfg=snprintf_engine=\"" ++ e.name ++ "\"" =
      "cargo:rustc-cfg=" ++ engineSetting e := by
  have hfront : "cargo:rustc-cfg=snprintf_engine=\"".toList =
      "cargo:rustc-cfg=".toList ++ "snprintf_engine=\"".toList := by decide +kernel
  have h (name : String) : "cargo:rustc-cfg=snprintf_engine=\"" ++ name ++ "\"" =
      "cargo:rustc-cfg=" ++ ("snprintf_engine=\"" ++ name ++ "\"") := by
    apply String.toList_inj.1
    simp only [String.toList_append, hfront, List.append_assoc]
  exact h e.name

/-- A run that chooses an engine and prints all of its lines. -/
structure Configured (env : Environment) (r : Run) (e : Engine) : Prop where
  chosen : choose env.target defaultRules env.enables = .ok e
  lines_eq : r.lines =
    watchLines ++ declarationLines ++ settingLines e (ruled defaultRules env.target)

theorem configured_of_exitCode {env : Environment} {compilers : String → Compiler}
    (h : (configure env compilers).exitCode = 0) :
    ∃ e, Configured env (configure env compilers) e := by
  unfold configure at h ⊢
  split at h
  · simp [Run.exitCode] at h
  · split at h
    · simp [Run.exitCode] at h
    · next e hchosen =>
      exact ⟨e, hchosen, rfl⟩

namespace Configured

variable {env : Environment} {r : Run} {e : Engine}

theorem settings_of_lines (H : Configured env r e) :
    r.lines.filterMap setting? = engineSetting e ::
      if hostAvailable e (ruled defaultRules env.target) then [hostSetting] else [] := by
  -- the fixed lines are evaluated, and the others read as far as the name of the engine
  have hfixed : (watchLines ++ declarationLines).filterMap setting? = [] := by decide +kernel
  have hhost : "cargo:rustc-cfg=snprintf_host_vsnprintf" = "cargo:rustc-cfg=" ++ hostSetting := by
    decide +kernel
  have hexport : setting? ("cargo:rustc-env=SNPRINTF_SHIM_ENGINE=" ++ e.name) = none := by
    simp [setting?, List.isPrefixOf]
  rw [H.lines_eq, List.filterMap_append, hfixed, settingLines, engineLine_eq, hhost]
  cases hostAvailable e (ruled defaultRules env.target) <;> simp [setting?_append, hexport]

/-- The settings of a build: its engine, the host's formatter if it is available, and the enabled
overrides. -/
theorem mem_settings_iff (H : Configured env r e) {s : String} :
    s ∈ r.settings env ↔ s = engineSetting e ∨
      (hostAvailable e (ruled defaultRules env.target) = true ∧ s = hostSetting) ∨
      ∃ e' : Engine, env.enables e'.feature = true ∧ s = featureSetting e'.feature := by
  rw [Run.settings, H.settings_of_lines, List.mem_append]
  have hfeature : s ∈ ((Engine.all.map Engine.feature).filter env.enables).map featureSetting ↔
      ∃ e' : Engine, env.enables e'.feature = true ∧ s = featureSetting e'.feature := by
    simp only [List.mem_map, List.mem_filter]
    constructor
    · rintro ⟨_, ⟨⟨e', _, rfl⟩, henabled⟩, rfl⟩
      exact ⟨e', henabled, rfl⟩
    · rintro ⟨e', henabled, rfl⟩
      exact ⟨_, ⟨⟨e', e'.mem_all, rfl⟩, henabled⟩, rfl⟩
  rw [hfeature]
  cases hostAvailable e (ruled defaultRules env.target) <;> simp [or_assoc]

theorem engineSetting_mem_iff (H : Configured env r e) {e' : Engine} :
    engineSetting e' ∈ r.settings env ↔ e' = e := by
  simp [H.mem_settings_iff, engineSetting_inj, engineSetting_ne_hostSetting,
    engineSetting_ne_featureSetting]

theorem hostSetting_mem_iff (H : Configured env r e) :
    hostSetting ∈ r.settings env ↔ hostAvailable e (ruled defaultRules env.target) = true := by
  simp [H.mem_settings_iff, (engineSetting_ne_hostSetting _).symm, hostSetting_ne_featureSetting]

theorem featureSetting_mem_iff (H : Configured env r e) (e' : Engine) :
    featureSetting e'.feature ∈ r.settings env ↔ env.enables e'.feature = true := by
  simp [H.mem_settings_iff, (engineSetting_ne_featureSetting _ _).symm,
    (hostSetting_ne_featureSetting _).symm, featureSetting_inj]

theorem engineOf_eq (H : Configured env r e) : engineOf (r.settings env) = some e := by
  have hsettings : ∀ e', (r.settings env).contains (engineSetting e') = decide (e' = e) := by
    intro e'
    rw [List.contains_eq_mem, decide_eq_decide]
    exact H.engineSetting_mem_iff
  simp only [engineOf, hsettings]
  cases e <;> rfl

/-- The freestanding engine is chosen only by its override. -/
theorem enables_freestanding (H : Configured env r .freestanding) :
    env.enables Engine.freestanding.feature = true := by
  rcases choose_eq_ok_iff.1 H.chosen with hover | ⟨-, hruled⟩
  · exact mem_overrides.1 (hover ▸ List.mem_cons_self)
  · exact absurd hruled ruled_default_ne_freestanding

theorem compiled_usedBy (H : Configured env r e) {p : Part} (hp : p ∈ Part.usedBy e) :
    p.compiled (r.settings env) = true := by
  have hengine : engineSetting e ∈ r.settings env := H.engineSetting_mem_iff.2 rfl
  have hhost (h : e.usesHost = true) : hostSetting ∈ r.settings env :=
    H.hostSetting_mem_iff.2 (by simp [hostAvailable, h])
  cases e with
  | hosted | standIn =>
    simp only [Part.usedBy, Part.ofEngine, List.mem_cons, List.not_mem_nil, or_false] at hp
    have := hhost rfl
    rcases hp with rfl | rfl | rfl | rfl <;> simp [Part.compiled, Part.gate, Part.enclosing, this]
  | ucrt =>
    simp only [Part.usedBy, Part.ofEngine, List.mem_cons, List.not_mem_nil, or_false] at hp
    rcases hp with rfl | rfl | rfl <;> simp [Part.compiled, Part.gate, Part.enclosing, hengine]
  | freestanding =>
    obtain rfl := List.mem_singleton.1 hp
    have := (H.featureSetting_mem_iff .freestanding).2 H.enables_freestanding
    simp [Part.ofEngine, Part.compiled, Part.gate, Part.enclosing, this]

theorem engineLines_eq (H : Configured env r e) :
    r.lines.filter (starts "cargo:rustc-cfg=snprintf_engine=") =
      ["cargo:rustc-cfg=snprintf_engine=\"" ++ e.name ++ "\""] := by
  have hfixed : (watchLines ++ declarationLines).filter
      (starts "cargo:rustc-cfg=snprintf_engine=") = [] := by decide +kernel
  rw [H.lines_eq, List.filter_append, hfixed, settingLines]
  cases hostAvailable e (ruled defaultRules env.target) <;> simp [starts, List.isPrefixOf]

theorem exportLines_eq (H : Configured env r e) :
    r.lines.filter (starts "cargo:rustc-env=SNPRINTF_SHIM_ENGINE=") =
      ["cargo:rustc-env=SNPRINTF_SHIM_ENGINE=" ++ e.name] := by
  have hfixed : (watchLines ++ declarationLines).filter
      (starts "cargo:rustc-env=SNPRINTF_SHIM_ENGINE=") = [] := by decide +kernel
  rw [H.lines_eq, List.filter_append, hfixed, settingLines]
  cases hostAvailable e (ruled defaultRules env.target) <;> simp [starts, List.isPrefixOf]

theorem declarationLines_eq (H : Configured env r e) :
    r.lines.filter (starts "cargo:rustc-check-cfg=cfg(snprintf_engine,") =
      ["cargo:rustc-check-cfg=cfg(snprintf_engine, values(" ++
        ", ".intercalate
          ((Engine.all.map Engine.name).map fun v => "\"" ++ v ++ "\"") ++ "))"] := by
  have hfixed : (watchLines ++ declarationLines).filter
      (starts "cargo:rustc-check-cfg=cfg(snprintf_engine,") = declarationLines.take 1 := by
    decide +kernel
  rw [H.lines_eq, List.filter_append, hfixed, settingLines, declarationLines, List.map_map]
  cases hostAvailable e (ruled defaultRules env.target) <;>
    simp [starts, List.isPrefixOf, Function.comp_def]

end Configured

/-- What a compiled part refers to is compiled, whatever the settings are. -/
theorem Part.compiled_of_mem_needs {settings : List String} {p q : Part}
    (h : p.compiled settings = true) (hq : q ∈ p.needs) : q.compiled settings = true := by
  cases p with
  | hosted | freestanding | ucrtModule | ucrtEntry => simp [needs] at hq
  | standIn | standInEntry | ucrt | ucrtExport =>
    obtain rfl := List.mem_singleton.1 hq
    simp_all [compiled, gate, enclosing]

theorem featureVariable_freestanding :
    Environment.featureVariable Engine.freestanding.feature =
      "CARGO_FEATURE_ENGINE_PRINTF_COMPAT" := by
  decide +kernel

/-- **The chosen engine is compiled in.** A run without a fault prints one engine, which is
among the values that it declares and which it also exports. In a build with the printed
settings that is the engine in use, all of its parts are compiled in, and no compiled part
refers to one that is not. -/
theorem configured_engine_is_compiled (env : Environment) (compilers : String → Compiler)
    (h : (configure env compilers).exitCode = 0) :
    ∃ e : Engine,
      let lines := (configure env compilers).lines
      let settings := (configure env compilers).settings env
      lines.filter (starts "cargo:rustc-cfg=snprintf_engine=") =
        ["cargo:rustc-cfg=snprintf_engine=\"" ++ e.name ++ "\""] ∧
      (∃ values : List String,
        lines.filter (starts "cargo:rustc-check-cfg=cfg(snprintf_engine,") =
          ["cargo:rustc-check-cfg=cfg(snprintf_engine, values(" ++
            ", ".intercalate (values.map fun v => "\"" ++ v ++ "\"") ++ "))"] ∧
        e.name ∈ values) ∧
      lines.filter (starts "cargo:rustc-env=SNPRINTF_SHIM_ENGINE=") =
        ["cargo:rustc-env=SNPRINTF_SHIM_ENGINE=" ++ e.name] ∧
      (featureSetting "engine-printf-compat" ∈ settings ↔
        (env.text "CARGO_FEATURE_ENGINE_PRINTF_COMPAT").isOk = true) ∧
      engineOf settings = some e ∧
      (∀ p ∈ Part.usedBy e, p.compiled settings = true) ∧
      ∀ p : Part, p.compiled settings = true → ∀ q ∈ p.needs, q.compiled settings = true := by
  obtain ⟨e, H⟩ := configured_of_exitCode h
  have hfeature := H.featureSetting_mem_iff .freestanding
  rw [Environment.enables, featureVariable_freestanding] at hfeature
  refine ⟨e, H.engineLines_eq, ⟨_, H.declarationLines_eq, ?_⟩, H.exportLines_eq, hfeature,
    H.engineOf_eq, fun p hp => H.compiled_usedBy hp,
    fun p hp q hq => Part.compiled_of_mem_needs hp hq⟩
  exact List.mem_map_of_mem e.mem_all

/-- An override on a target that no rule fits. -/
theorem configured_engine_is_compiled_bare :
    let env : Environment := fun key =>
      if key = "OUT_DIR" ∨ key = "RUSTC" then some [0x2f]
      else if key = "CARGO_FEATURE_ENGINE_PRINTF_COMPAT" then some []
      else none
    (configure env fun _ => .accepts).exitCode = 0 ∧
      ∃ e : Engine, ∀ p ∈ Part.usedBy e,
        p.compiled ((configure env fun _ => .accepts).settings env) = true := by
  intro env
  have h : (configure env fun _ => .accepts).exitCode = 0 := by decide +kernel
  obtain ⟨e, -, -, -, -, -, hparts, -⟩ := configured_engine_is_compiled env _ h
  exact ⟨h, e, hparts⟩

end FormattedOutput.Selection
