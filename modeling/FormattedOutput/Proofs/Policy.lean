import FormattedOutput.Proofs.Configuration
import FormattedOutput.Proofs.Cuts

/-! The policy of the script in terms of the environment's variables alone. `Describes` is what
the environment says of the target, `Overridden` says for which engines an override is there,
and `nativeEngine` is the engine of a target without one. A run that gets past the compiler
chooses by these three (`choose_eq_ok_iff_policy`), and the lines that it prints follow from the
choice and the native engine. -/

namespace FormattedOutput.Selection

namespace Environment

variable {env : Environment} {key : String}

/-- The value of a variable is UTF-8. -/
def HasText (env : Environment) (key : String) : Prop := ∃ cs, env key = some (Utf8.encode cs)

/-- The text that a variable is read as: its value, and nothing if it is not set or not UTF-8. -/
inductive ReadAs (env : Environment) (key : String) : String → Prop where
  | value {cs : List Char} (h : env key = some (Utf8.encode cs)) : ReadAs env key (String.ofList cs)
  | empty (h : ¬ env.HasText key) : ReadAs env key ""

/-- An environment with a variable set to a value. -/
def set (env : Environment) (key : String) (value : Bytes) : Environment :=
  fun k => if k = key then some value else env k

theorem text_eq_ok_iff {s : String} :
    env.text key = .ok s ↔ env key = some (Utf8.encode s.toList) := by
  unfold text
  cases hvalue : env key with
  | none => simp
  | some value =>
    simp only [Option.some.injEq]
    cases hdecode : Utf8.decode? value with
    | none =>
      have hnot : value ≠ Utf8.encode s.toList := fun h => by
        rw [Utf8.decode?_eq_some_iff.2 h] at hdecode
        cases hdecode
      simp [hnot]
    | some cs =>
      obtain rfl := Utf8.decode?_eq_some_iff.1 hdecode
      rw [Utf8.encode_inj]
      constructor
      · rintro ⟨⟩
        rw [String.toList_ofList]
      · rintro rfl
        simp only [String.ofList_toList]

theorem text_of_value {cs : List Char} (h : env key = some (Utf8.encode cs)) :
    env.text key = .ok (String.ofList cs) :=
  text_eq_ok_iff.2 (by rw [String.toList_ofList, h])

theorem text_isOk_iff : (env.text key).isOk = true ↔ env.HasText key := by
  constructor
  · intro h
    cases htext : env.text key with
    | error e => simp [htext, Except.isOk, Except.toBool] at h
    | ok s => exact ⟨s.toList, text_eq_ok_iff.1 htext⟩
  · rintro ⟨cs, h⟩
    rw [text_of_value h]
    rfl

theorem ReadAs.textOrEmpty_eq {s : String} (H : env.ReadAs key s) : env.textOrEmpty key = s := by
  unfold textOrEmpty
  cases H with
  | value h =>
    rw [text_of_value h]
    rfl
  | empty h =>
    cases htext : env.text key with
    | error e => rfl
    | ok s => exact absurd ⟨s.toList, text_eq_ok_iff.1 htext⟩ h

theorem readAs_textOrEmpty (env : Environment) (key : String) :
    env.ReadAs key (env.textOrEmpty key) := by
  unfold textOrEmpty
  cases htext : env.text key with
  | error e =>
    refine .empty fun ⟨cs, h⟩ => ?_
    rw [text_of_value h] at htext
    cases htext
  | ok s =>
    have := ReadAs.value (text_eq_ok_iff.1 htext)
    rwa [String.ofList_toList] at this

end Environment

/-! ## Targets -/

theorem families_intercalate {parts : List String} (h : ∀ p ∈ parts, ',' ∉ p.toList) :
    families (",".intercalate parts) = parts.filter (· ≠ "") := by
  have hsplit : ((",".intercalate parts).toList.splitOn ',').filter (· ≠ []) =
      (parts.map String.toList).filter (· ≠ []) := by
    rw [String.toList_intercalate]
    cases parts with
    | nil => decide
    | cons p parts =>
      have hcomma : ∀ l ∈ (p :: parts).map String.toList, ',' ∉ l := by
        intro l hl
        obtain ⟨q, hq, rfl⟩ := List.mem_map.1 hl
        exact h q hq
      exact congrArg _ (List.splitOn_intercalate ',' hcomma (by simp))
  have hnonempty : ((fun l : List Char => decide (l ≠ [])) ∘ String.toList) =
      fun p : String => decide (p ≠ "") := by
    funext p
    simp [String.toList_eq_nil_iff]
  have hid : String.ofList ∘ String.toList = id := by
    funext p
    exact String.ofList_toList
  rw [families, hsplit, List.filter_map, List.map_map, hnonempty, hid, List.map_id]

/-- What the variables of an environment say of the target. Its families are the parts of a list
between commas, without the empty ones. -/
structure Environment.Describes (env : Environment) (t : Target) : Prop where
  readOs : env.ReadAs "CARGO_CFG_TARGET_OS" t.os
  readEnv : env.ReadAs "CARGO_CFG_TARGET_ENV" t.env
  readAbi : env.ReadAs "CARGO_CFG_TARGET_ABI" t.abi
  readFamily : ∃ parts : List String, (∀ p ∈ parts, ',' ∉ p.toList) ∧
    env.ReadAs "CARGO_CFG_TARGET_FAMILY" (",".intercalate parts) ∧ t.family = parts.filter (· ≠ "")

theorem Environment.Describes.target_eq {env : Environment} {t : Target} (H : env.Describes t) :
    env.target = t := by
  obtain ⟨parts, hcomma, hread, hfamily⟩ := H.readFamily
  unfold target
  rw [H.readOs.textOrEmpty_eq, H.readEnv.textOrEmpty_eq, H.readAbi.textOrEmpty_eq,
    hread.textOrEmpty_eq, families_intercalate hcomma, ← hfamily]

theorem Environment.describes_target (env : Environment) : env.Describes env.target := by
  refine ⟨env.readAs_textOrEmpty _, env.readAs_textOrEmpty _, env.readAs_textOrEmpty _, ?_⟩
  generalize hs : env.textOrEmpty "CARGO_CFG_TARGET_FAMILY" = s
  have hparts : ∀ p ∈ (s.toList.splitOn ',').map String.ofList, ',' ∉ p.toList := by
    intro p hp
    obtain ⟨l, hl, rfl⟩ := List.mem_map.1 hp
    rw [String.toList_ofList]
    exact not_mem_of_mem_splitOn hl
  have hjoin : ",".intercalate ((s.toList.splitOn ',').map String.ofList) = s := by
    apply String.toList_inj.1
    have hid : String.toList ∘ String.ofList = id := funext fun l => String.toList_ofList
    rw [String.toList_intercalate, List.map_map, hid, List.map_id]
    exact List.intercalate_splitOn ','
  refine ⟨_, hparts, ?_, ?_⟩
  · rw [hjoin, ← hs]
    exact env.readAs_textOrEmpty _
  · rw [← families_intercalate hparts, hjoin, ← hs]
    rfl

/-- Every environment describes one target. -/
theorem Environment.describes_iff {env : Environment} {t : Target} :
    env.Describes t ↔ t = env.target :=
  ⟨fun H => H.target_eq.symm, fun h => h ▸ env.describes_target⟩

/-- The engine of a target without an override. -/
def nativeEngine (t : Target) : Option Engine :=
  if t.os = "windows" ∧ t.env = "msvc" then some .ucrt
  else if t.os = "windows" ∧ t.env = "gnu" ∧ t.abi = "llvm" then some .hosted
  else if t.os = "windows" ∧ t.env = "gnu" then some .standIn
  else if t.os = "wasi" ∨ "unix" ∈ t.family then some .hosted
  else none

theorem ruled_default_eq (t : Target) : ruled defaultRules t = nativeEngine t := by
  have hnil : ruled [] t = none := rfl
  simp only [defaultRules, ruled_cons, hnil, nativeEngine, Rule.fits, Option.all_some,
    Option.all_none, Bool.and_true, Bool.true_and, Bool.and_eq_true, beq_iff_eq,
    List.contains_eq_mem, decide_eq_true_eq,
    eq_comm (b := t.os), eq_comm (b := t.env), eq_comm (b := t.abi), and_assoc]
  by_cases hwasi : t.os = "wasi" <;> simp [hwasi]

/-! ## Overrides -/

/-- The variable that overrides the choice in favour of an engine. -/
def overrideVariable : Engine → String
  | .hosted => "CARGO_FEATURE_ENGINE_VSNPRINTF"
  | .ucrt => "CARGO_FEATURE_ENGINE_UCRT"
  | .standIn => "CARGO_FEATURE_ENGINE_UCRT_STANDIN"
  | .freestanding => "CARGO_FEATURE_ENGINE_PRINTF_COMPAT"

/-- The override in favour of an engine is there. -/
def Environment.Overridden (env : Environment) (e : Engine) : Prop :=
  env.HasText (overrideVariable e)

theorem featureVariable_eq (e : Engine) :
    Environment.featureVariable e.feature = overrideVariable e := by
  cases e <;> decide +kernel

theorem overrideVariable_inj {e e' : Engine} :
    overrideVariable e = overrideVariable e' ↔ e = e' := by
  refine ⟨fun h => ?_, fun h => h ▸ rfl⟩
  revert h
  cases e <;> cases e' <;> decide

theorem enables_iff {env : Environment} {e : Engine} :
    env.enables e.feature = true ↔ env.Overridden e := by
  rw [Environment.enables, featureVariable_eq, Environment.text_isOk_iff, Environment.Overridden]

theorem choose_eq_ok_iff_policy {env : Environment} {t : Target} (ht : env.Describes t)
    {e : Engine} :
    choose env.target defaultRules env.enables = .ok e ↔
      (∀ e', env.Overridden e' ↔ e' = e) ∨ (∀ e', ¬ env.Overridden e') ∧
        nativeEngine t = some e := by
  rw [choose_eq_ok_iff, overrides_eq_singleton_iff, overrides_eq_nil_iff, ht.target_eq,
    ruled_default_eq]
  simp only [enables_iff]

/-! ## Runs -/

/-- A run that ends well and sets an engine. -/
def Run.Emits (r : Run) (e : Engine) : Prop :=
  r.exitCode = 0 ∧ r.lines.filter (starts "cargo:rustc-cfg=snprintf_engine=") =
    ["cargo:rustc-cfg=snprintf_engine=\"" ++ e.name ++ "\""]

/-- The line that sets the host's formatter as available. -/
def hostLine : String := "cargo:rustc-cfg=snprintf_host_vsnprintf"

/-- The environment names a place for output and a compiler that accepts the probe. -/
def Environment.PassesProbe (env : Environment) (compilers : String → Compiler) : Prop :=
  env.HasText "OUT_DIR" ∧
    ∃ program, env "RUSTC" = some (Utf8.encode program) ∧
      compilers (String.ofList program) = .accepts

section Runs

variable {env : Environment} {compilers : String → Compiler} {e : Engine}

theorem testCompiler_of_passesProbe (H : env.PassesProbe compilers) :
    ∃ probe, testCompiler env compilers = (.ok (), probe) := by
  obtain ⟨⟨directory, hdirectory⟩, program, hprogram, haccepts⟩ := H
  refine ⟨some (probeIn (String.ofList directory)), ?_⟩
  simp only [testCompiler, Environment.text_of_value hdirectory, Environment.text_of_value hprogram,
    haccepts]

theorem configured_of_choose (H : env.PassesProbe compilers)
    (hchosen : choose env.target defaultRules env.enables = .ok e) :
    (configure env compilers).exitCode = 0 ∧ Configured env (configure env compilers) e := by
  obtain ⟨probe, htest⟩ := testCompiler_of_passesProbe H
  have hrun : configure env compilers =
      { lines := watchLines ++ declarationLines ++ settingLines e (ruled defaultRules env.target)
        probe, fault := none } := by
    simp only [configure, htest, hchosen]
  rw [hrun]
  exact ⟨rfl, hchosen, rfl⟩

/-- A run with a fault prints no more than the fixed lines. -/
theorem lines_isPrefix_of_exitCode (h : (configure env compilers).exitCode ≠ 0) :
    (configure env compilers).lines <+: watchLines ++ declarationLines := by
  unfold configure at h ⊢
  split at h
  · exact List.prefix_append watchLines declarationLines
  · split at h
    · exact List.prefix_rfl
    · exact absurd rfl h

theorem Configured.emits_iff {r : Run} (H : Configured env r e) (hexit : r.exitCode = 0)
    {e' : Engine} :
    r.Emits e' ↔ e' = e := by
  rw [Run.Emits, H.engineLines_eq, engineLine_eq, engineLine_eq]
  constructor
  · rintro ⟨-, h⟩
    have hsetting := congrArg setting? (List.singleton_inj.1 h)
    rw [setting?_append, setting?_append, Option.some.injEq, engineSetting_inj] at hsetting
    exact hsetting.symm
  · rintro rfl
    exact ⟨hexit, rfl⟩

theorem hostLine_not_mem_fixed : hostLine ∉ watchLines ++ declarationLines := by
  decide +kernel

theorem Configured.hostLine_mem_iff {r : Run} (H : Configured env r e) :
    hostLine ∈ r.lines ↔ hostAvailable e (ruled defaultRules env.target) = true := by
  have hengine : hostLine ≠ "cargo:rustc-cfg=snprintf_engine=\"" ++ e.name ++ "\"" := by
    cases e <;> decide +kernel
  have hexport : hostLine ≠ "cargo:rustc-env=SNPRINTF_SHIM_ENGINE=" ++ e.name := by
    cases e <;> decide +kernel
  rw [H.lines_eq, List.mem_append, or_iff_right hostLine_not_mem_fixed, settingLines]
  cases hostAvailable e (ruled defaultRules env.target) with
  | false => simp [hengine, hexport]
  | true => simp [hostLine]

/-- Which engine a run sets. -/
theorem emits_iff {t : Target} (H : env.PassesProbe compilers) (ht : env.Describes t) :
    (configure env compilers).Emits e ↔
      (∀ e', env.Overridden e' ↔ e' = e) ∨ (∀ e', ¬ env.Overridden e') ∧
        nativeEngine t = some e := by
  rw [← choose_eq_ok_iff_policy ht]
  constructor
  · intro hemits
    obtain ⟨e', hconfigured⟩ := configured_of_exitCode hemits.1
    rw [(hconfigured.emits_iff hemits.1).1 hemits]
    exact hconfigured.chosen
  · intro hchosen
    obtain ⟨hexit, hconfigured⟩ := configured_of_choose H hchosen
    exact (hconfigured.emits_iff hexit).2 rfl

theorem exists_emits_of_exitCode (hexit : (configure env compilers).exitCode = 0) :
    ∃ e, (configure env compilers).Emits e := by
  obtain ⟨e, hconfigured⟩ := configured_of_exitCode hexit
  exact ⟨e, (hconfigured.emits_iff hexit).2 rfl⟩

/-- When a run sets the host's formatter as available. -/
theorem hostLine_mem_iff {t : Target} (ht : env.Describes t)
    (hemits : (configure env compilers).Emits e) :
    hostLine ∈ (configure env compilers).lines ↔
      e ∈ [.hosted, .standIn] ∨ ∃ n ∈ nativeEngine t, n ∈ [Engine.hosted, .standIn] := by
  obtain ⟨e', hconfigured⟩ := configured_of_exitCode hemits.1
  obtain rfl := (hconfigured.emits_iff hemits.1).1 hemits
  have husesHost (n : Engine) : n.usesHost = true ↔ n ∈ [Engine.hosted, .standIn] := by
    cases n <;> decide
  rw [hconfigured.hostLine_mem_iff, ht.target_eq, ruled_default_eq, hostAvailable, Bool.or_eq_true,
    husesHost, Option.any_eq_true]
  simp only [husesHost, Option.mem_def]

/-! ## One more override -/

theorem Environment.Overridden.set_iff {value : Bytes} (hvalue : Utf8.Valid value)
    (hnone : ∀ e', ¬ env.Overridden e') {e' : Engine} :
    (env.set (overrideVariable e) value).Overridden e' ↔ e' = e := by
  unfold Overridden HasText set
  by_cases he : e' = e
  · subst he
    obtain ⟨cs, rfl⟩ := hvalue
    simp only [if_true, iff_true]
    exact ⟨cs, rfl⟩
  · have hother := hnone e'
    simpa [Overridden, HasText, overrideVariable_inj, he] using hother

/-- The variables that a run reads besides the overrides. -/
def otherVariables : List String :=
  ["OUT_DIR", "RUSTC", "CARGO_CFG_TARGET_OS", "CARGO_CFG_TARGET_ENV", "CARGO_CFG_TARGET_ABI",
    "CARGO_CFG_TARGET_FAMILY"]

theorem Environment.text_set {key : String} (hkey : key ∈ otherVariables) (value : Bytes) :
    (env.set (overrideVariable e) value).text key = env.text key := by
  have hne : ∀ key ∈ otherVariables, key ≠ overrideVariable e := by
    cases e <;> decide
  simp [text, set, hne key hkey]

theorem Environment.target_set (value : Bytes) :
    (env.set (overrideVariable e) value).target = env.target := by
  simp only [target, textOrEmpty]
  rw [text_set, text_set, text_set, text_set] <;> decide

theorem Environment.PassesProbe.set (H : env.PassesProbe compilers) (value : Bytes) :
    (env.set (overrideVariable e) value).PassesProbe compilers := by
  obtain ⟨hdirectory, program, hprogram, haccepts⟩ := H
  refine ⟨?_, program, ?_, haccepts⟩
  · rw [← text_isOk_iff, text_set (by decide), text_isOk_iff]
    exact hdirectory
  · have htext := text_of_value hprogram
    rw [← text_set (e := e) (by decide) value, text_eq_ok_iff, String.toList_ofList] at htext
    exact htext

end Runs

/-- **Selection policy.** An environment that passes the probe describes one target. A run ends well
just if one override is there, or none and the target has a native engine; it sets the engine of
that override, whatever the target is, or the native one. It sets the host's formatter as available
just if the engine that it sets or the native one calls it. One more override, where there was none,
does not lose that setting. -/
theorem configure_follows_policy (env : Environment) (compilers : String → Compiler)
    (H : env.PassesProbe compilers) :
    ∃ t : Target, (∀ t', env.Describes t' ↔ t' = t) ∧
      let run := configure env compilers
      (run.exitCode = 0 ↔ (∃ e, ∀ e', env.Overridden e' ↔ e' = e) ∨
        (∀ e, ¬ env.Overridden e) ∧ nativeEngine t ≠ none) ∧
      (∀ e, (∀ e', env.Overridden e' ↔ e' = e) → run.Emits e) ∧
      (∀ e, (∀ e', ¬ env.Overridden e') → nativeEngine t = some e → run.Emits e) ∧
      (∀ e, run.Emits e → (hostLine ∈ run.lines ↔
        e ∈ [.hosted, .standIn] ∨ ∃ n ∈ nativeEngine t, n ∈ [Engine.hosted, .standIn])) ∧
      ∀ e value, Utf8.Valid value → (∀ e', ¬ env.Overridden e') → hostLine ∈ run.lines →
        let run' := configure (env.set (overrideVariable e) value) compilers
        run'.Emits e ∧ hostLine ∈ run'.lines := by
  have ht := env.describes_target
  refine ⟨env.target, fun t' => Environment.describes_iff, ?_,
    fun e he => (emits_iff H ht).2 (.inl he),
    fun e hnone hnative => (emits_iff H ht).2 (.inr ⟨hnone, hnative⟩),
    fun e hemits => hostLine_mem_iff ht hemits, fun e value hvalue hnone hhost => ?_⟩
  · constructor
    · intro hexit
      obtain ⟨e, hemits⟩ := exists_emits_of_exitCode hexit
      refine ((emits_iff H ht).1 hemits).imp (fun h => ⟨e, h⟩) fun ⟨hnone, hnative⟩ => ⟨hnone, ?_⟩
      rw [hnative]
      exact Option.some_ne_none e
    · rintro (⟨e, he⟩ | ⟨hnone, hnative⟩)
      · exact ((emits_iff H ht).2 (.inl he)).1
      · obtain ⟨e, he⟩ := Option.ne_none_iff_exists'.1 hnative
        exact ((emits_iff H ht).2 (.inr ⟨hnone, he⟩)).1
  · -- without an override the engine that is set is the native one, so the host's formatter is its
    have hexit : (configure env compilers).exitCode = 0 := by
      refine Decidable.byContradiction fun hne => ?_
      exact hostLine_not_mem_fixed ((lines_isPrefix_of_exitCode hne).mem hhost)
    obtain ⟨n, hn⟩ := exists_emits_of_exitCode hexit
    have hnative : nativeEngine env.target = some n := by
      rcases (emits_iff H ht).1 hn with hover | ⟨-, hnative⟩
      · exact absurd ((hover n).2 rfl) (hnone n)
      · exact hnative
    have hnativeHost : ∃ n ∈ nativeEngine env.target, n ∈ [Engine.hosted, .standIn] :=
      ((hostLine_mem_iff ht hn).1 hhost).elim (fun h => ⟨n, hnative, h⟩) id
    have ht' := (env.set (overrideVariable e) value).describes_target
    have hemits := (emits_iff (H.set (e := e) value) ht').2
      (.inl fun e' => Environment.Overridden.set_iff hvalue hnone)
    refine ⟨hemits, (hostLine_mem_iff ht' hemits).2 (.inr ?_)⟩
    rw [Environment.target_set]
    exact hnativeHost

/-- An override on a target of Windows that also counts as a Unix, where
another variable is not UTF-8. -/
theorem configure_follows_policy_windows :
    let env : Environment := fun key =>
      if key = "OUT_DIR" ∨ key = "RUSTC" then some [0x2f]
      else if key = "CARGO_CFG_TARGET_OS" then some (Utf8.encode "windows".toList)
      else if key = "CARGO_CFG_TARGET_ENV" then some (Utf8.encode "gnu".toList)
      else if key = "CARGO_CFG_TARGET_FAMILY" then some (Utf8.encode ",unix,windows".toList)
      else if key = "CARGO_FEATURE_ENGINE_UCRT" then some []
      else if key = "CARGO_FEATURE_ENGINE_VSNPRINTF" then some [0xff]
      else none
    env.PassesProbe (fun _ => .accepts) ∧ (configure env fun _ => .accepts).Emits .ucrt ∧
      hostLine ∈ (configure env fun _ => .accepts).lines := by
  intro env
  have H : env.PassesProbe (fun _ => .accepts) :=
    ⟨⟨['/'], by decide +kernel⟩, ['/'], by decide +kernel, rfl⟩
  have hover : ∀ e', env.Overridden e' ↔ e' = .ucrt := by
    intro e'
    rw [← enables_iff]
    cases e' <;> decide +kernel
  have hnative : nativeEngine env.target = some .standIn := by decide +kernel
  obtain ⟨t, ht, -, hemits, -, hhost, -⟩ := configure_follows_policy env _ H
  obtain rfl := (ht env.target).1 env.describes_target
  exact ⟨H, hemits .ucrt hover, (hhost .ucrt (hemits .ucrt hover)).2 (.inr ⟨_, hnative, by decide⟩)⟩

end FormattedOutput.Selection
