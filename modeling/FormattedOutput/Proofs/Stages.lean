import FormattedOutput.Proofs.Policy

/-! The stages of a run. Several of them can be bound to fail in one environment
(`Stage.Fails`); the run stops at the first of these (`StopsAt`), with the message of that stage
and with what was printed before it. -/

namespace FormattedOutput.Selection

/-- The stages at which a run can fail. -/
inductive Stage where
  /-- The place for the compiler's output is read. -/
  | directory
  /-- The name of the compiler is read. -/
  | program
  /-- The compiler is started. -/
  | start
  /-- The compiler is given the probe and waited for. -/
  | probe
  /-- An engine is chosen. -/
  | choice
  deriving DecidableEq, Repr

namespace Stage

/-- The place of a stage in their order. -/
def rank : Stage → Nat
  | directory => 0
  | program => 1
  | start => 2
  | probe => 3
  | choice => 4

/-- The variable whose text a stage needs. -/
def needed? : Stage → Option String
  | directory => some "OUT_DIR"
  | program => some "RUSTC"
  | start | probe | choice => none

/-- A stage that is bound to fail once it is reached, and the message that it fails with. -/
inductive Fails (env : Environment) (compilers : String → Compiler) : Stage → String → Prop where
  | unset {stage : Stage} {key : String} (hkey : stage.needed? = some key) (h : env key = none) :
    Fails env compilers stage (uncaughtMessage "NotPresent")
  | notText {stage : Stage} {key : String} {value : Bytes} (hkey : stage.needed? = some key)
      (h : env key = some value) (hvalue : ¬ Utf8.Valid value) :
    Fails env compilers stage (uncaughtMessage ("NotUnicode(" ++ Text.quoteBytes value ++ ")"))
  | unstartable {name : List Char} {error : SystemError}
      (h : env "RUSTC" = some (Utf8.encode name))
      (hstart : compilers (String.ofList name) = .unstartable error) :
    Fails env compilers start (uncaughtMessage error.message)
  | unanswered {name : List Char} {error : SystemError}
      (h : env "RUSTC" = some (Utf8.encode name))
      (hprobe : compilers (String.ofList name) ∈ [.unwritable error, .unwaitable error]) :
    Fails env compilers probe (uncaughtMessage error.message)
  | rejected {name : List Char} (h : env "RUSTC" = some (Utf8.encode name))
      (hprobe : compilers (String.ofList name) = .rejects) :
    Fails env compilers probe "snprintf-shim needs a nightly rustc with `#![feature(c_variadic)]`"
  | unchosen {error : ChoiceError} (h : choose env.target defaultRules env.enables = .error error) :
    Fails env compilers choice error.message

/-- A stage that the run gets to: none before it fails. -/
def Reached (env : Environment) (compilers : String → Compiler) (stage : Stage) : Prop :=
  ∀ earlier : Stage, earlier.rank < stage.rank → ∀ message, ¬ earlier.Fails env compilers message

/-- What is printed before a stage. -/
def printed : Stage → List String
  | directory | program | start | probe => watchLines
  | choice => watchLines ++ declarationLines

/-- Whether the compiler has been started once a stage fails. -/
def started : Stage → Bool
  | directory | program | start => false
  | probe | choice => true

section Passing

variable {env : Environment} {compilers : String → Compiler} {stage : Stage} {key : String}
  {name : List Char} {message : String}

theorem not_fails_of_hasText (hkey : stage.needed? = some key) (h : env.HasText key) :
    ¬ stage.Fails env compilers message := by
  obtain ⟨cs, h⟩ := h
  intro H
  cases H with
  | unset hkey' h' =>
    obtain rfl := Option.some.inj (hkey.symm.trans hkey')
    simp [h] at h'
  | notText hkey' h' hvalue =>
    obtain rfl := Option.some.inj (hkey.symm.trans hkey')
    rw [h, Option.some.injEq] at h'
    exact hvalue ⟨cs, h'.symm⟩
  | unstartable | unanswered | rejected | unchosen => cases hkey

theorem not_fails_start (h : env "RUSTC" = some (Utf8.encode name))
    (hstart : ∀ error, compilers (String.ofList name) ≠ .unstartable error) :
    ¬ start.Fails env compilers message := by
  intro H
  cases H with
  | unset hkey | notText hkey => cases hkey
  | unstartable h' hstart' =>
    rw [h, Option.some.injEq] at h'
    exact hstart _ (Utf8.encode_inj.1 h' ▸ hstart')

theorem not_fails_probe (h : env "RUSTC" = some (Utf8.encode name))
    (haccepts : compilers (String.ofList name) = .accepts) :
    ¬ probe.Fails env compilers message := by
  intro H
  cases H with
  | unset hkey | notText hkey => cases hkey
  | unanswered h' hprobe =>
    rw [h, Option.some.injEq] at h'
    rw [← Utf8.encode_inj.1 h', haccepts] at hprobe
    simp at hprobe
  | rejected h' hprobe =>
    rw [h, Option.some.injEq] at h'
    rw [← Utf8.encode_inj.1 h', haccepts] at hprobe
    cases hprobe

theorem fails_of_text_eq_error {error : VariableError} (hkey : stage.needed? = some key)
    (h : env.text key = .error error) :
    stage.Fails env compilers (Fault.unreadable error).message := by
  unfold Environment.text at h
  cases hvalue : env key with
  | none =>
    simp only [hvalue, Except.error.injEq] at h
    exact h ▸ .unset hkey hvalue
  | some value =>
    simp only [hvalue] at h
    cases hdecode : Utf8.decode? value with
    | some cs => simp [hdecode] at h
    | none =>
      simp only [hdecode, Except.error.injEq] at h
      refine h ▸ .notText hkey hvalue fun ⟨cs, hcs⟩ => ?_
      rw [Utf8.decode?_eq_some_iff.2 hcs] at hdecode
      cases hdecode

theorem reached_directory : directory.Reached env compilers :=
  fun _ h => absurd h (Nat.not_lt_zero _)

theorem Reached.next {later : Stage} (H : stage.Reached env compilers)
    (hstage : ∀ message, ¬ stage.Fails env compilers message)
    (hrank : later.rank = stage.rank + 1) :
    later.Reached env compilers := by
  intro earlier hearlier
  rcases Nat.lt_succ_iff_lt_or_eq.1 (hrank ▸ hearlier) with hlt | heq
  · exact H earlier hlt
  · have hsame : earlier = stage := by
      revert heq
      cases earlier <;> cases stage <;> decide
    exact hsame ▸ hstage

end Passing

end Stage

/-- A run stops at the first stage that fails. -/
structure StopsAt (env : Environment) (compilers : String → Compiler) (r : Run) (stage : Stage)
    (message : String) : Prop where
  fails : stage.Fails env compilers message
  reached : stage.Reached env compilers
  message_eq : r.fault.map Fault.message = some message
  lines_eq : r.lines = stage.printed
  probe_iff : r.probe.isSome = true ↔ stage.started = true

section Stopping

variable {env : Environment} {compilers : String → Compiler}

theorem configure_stopsAt_or_chooses (env : Environment) (compilers : String → Compiler) :
    (∃ stage message, StopsAt env compilers (configure env compilers) stage message) ∨
      env.PassesProbe compilers ∧ ∃ e, choose env.target defaultRules env.enables = .ok e := by
  -- the stages in their order: each fails, or hands over to the next
  cases hdirectory : env.text "OUT_DIR" with
  | error error =>
    refine .inl ⟨.directory, _, Stage.fails_of_text_eq_error rfl hdirectory,
      Stage.reached_directory, ?_, ?_, ?_⟩
    all_goals simp [configure, testCompiler, hdirectory, Stage.printed, Stage.started]
  | ok directory =>
  have hplace : env.HasText "OUT_DIR" := ⟨_, Environment.text_eq_ok_iff.1 hdirectory⟩
  have hprogramReached : Stage.program.Reached env compilers :=
    Stage.reached_directory.next (fun _ => Stage.not_fails_of_hasText rfl hplace) rfl
  cases hprogram : env.text "RUSTC" with
  | error error =>
    refine .inl ⟨.program, _, Stage.fails_of_text_eq_error rfl hprogram,
      hprogramReached, ?_, ?_, ?_⟩
    all_goals simp [configure, testCompiler, hdirectory, hprogram, Stage.printed, Stage.started]
  | ok program =>
  have hname := Environment.text_eq_ok_iff.1 hprogram
  have hcompilers : compilers (String.ofList program.toList) = compilers program := by
    rw [String.ofList_toList]
  have hstartReached : Stage.start.Reached env compilers :=
    hprogramReached.next (fun _ => Stage.not_fails_of_hasText rfl ⟨_, hname⟩) rfl
  have hprobeReached (hstarts : ∀ error, compilers program ≠ .unstartable error) :
      Stage.probe.Reached env compilers :=
    hstartReached.next (fun _ => Stage.not_fails_start hname (by rwa [hcompilers])) rfl
  cases hcompiler : compilers program with
  | unstartable error =>
    refine .inl ⟨.start, _, .unstartable hname (hcompilers.trans hcompiler),
      hstartReached, ?_, ?_, ?_⟩
    all_goals
      simp [configure, testCompiler, hdirectory, hprogram, hcompiler, Stage.printed, Stage.started,
        Fault.message]
  | unwritable error | unwaitable error =>
    have hfails : Stage.probe.Fails env compilers (uncaughtMessage error.message) :=
      .unanswered hname (by simp [hcompiler])
    refine .inl ⟨.probe, _, hfails, hprobeReached (by simp [hcompiler]), ?_, ?_, ?_⟩
    all_goals
      simp [configure, testCompiler, hdirectory, hprogram, hcompiler, Stage.printed, Stage.started,
        Fault.message]
  | rejects =>
    refine .inl ⟨.probe, _, .rejected hname (hcompilers.trans hcompiler),
      hprobeReached (by simp [hcompiler]), ?_, ?_, ?_⟩
    all_goals
      simp [configure, testCompiler, hdirectory, hprogram, hcompiler, Stage.printed, Stage.started,
        Fault.message]
  | accepts =>
  have haccepts := hcompilers.trans hcompiler
  have hchoiceReached : Stage.choice.Reached env compilers :=
    (hprobeReached (by simp [hcompiler])).next (fun _ => Stage.not_fails_probe hname haccepts) rfl
  cases hchoice : choose env.target defaultRules env.enables with
  | error error =>
    refine .inl ⟨.choice, _, .unchosen hchoice, hchoiceReached, ?_, ?_, ?_⟩
    all_goals
      simp [configure, testCompiler, hdirectory, hprogram, hcompiler, hchoice, Stage.printed,
        Stage.started, Fault.message]
  | ok e => exact .inr ⟨⟨hplace, _, hname, haccepts⟩, e, rfl⟩

theorem StopsAt.exitCode_eq {r : Run} {stage : Stage} {message : String}
    (H : StopsAt env compilers r stage message) : r.exitCode = 101 := by
  have hfault := H.message_eq
  cases h : r.fault with
  | none => simp [h] at hfault
  | some fault => simp [Run.exitCode, h]

theorem exists_stopsAt (h : (configure env compilers).exitCode ≠ 0) :
    ∃ stage message, StopsAt env compilers (configure env compilers) stage message := by
  rcases configure_stopsAt_or_chooses env compilers with hstops | ⟨hprobe, e, hchosen⟩
  · exact hstops
  · exact absurd (configured_of_choose hprobe hchosen).1 h

theorem exitCode_eq_zero_iff :
    (configure env compilers).exitCode = 0 ↔
      env.PassesProbe compilers ∧ ∃ e, choose env.target defaultRules env.enables = .ok e := by
  constructor
  · intro h
    rcases configure_stopsAt_or_chooses env compilers with ⟨stage, message, H⟩ | h'
    · rw [H.exitCode_eq] at h
      cases h
    · exact h'
  · rintro ⟨hprobe, e, hchosen⟩
    exact (configured_of_choose hprobe hchosen).1

/-! ## What is printed -/

/-- The fixed lines make no setting and export nothing. -/
theorem not_setting_of_mem_fixed {line : String} (h : line ∈ watchLines ++ declarationLines) :
    starts "cargo:rustc-cfg=" line = false ∧ starts "cargo:rustc-env=" line = false := by
  have hall : ∀ line ∈ watchLines ++ declarationLines,
      starts "cargo:rustc-cfg=" line = false ∧ starts "cargo:rustc-env=" line = false := by
    decide +kernel
  exact hall line h

/-- What a run prints that ends well goes on behind the fixed lines. -/
theorem Configured.isPrefix_lines {r : Run} {e : Engine} (H : Configured env r e) :
    watchLines ++ declarationLines <+: r.lines ∧ watchLines ++ declarationLines ≠ r.lines := by
  rw [H.lines_eq]
  refine ⟨List.prefix_append _ _, fun h => ?_⟩
  have hlength := congrArg List.length h
  simp [settingLines] at hlength

theorem exists_configured :
    ∃ (env : Environment) (compilers : String → Compiler) (e : Engine),
      (configure env compilers).exitCode = 0 ∧ Configured env (configure env compilers) e := by
  let env : Environment := fun key =>
    if key = "OUT_DIR" ∨ key = "RUSTC" then some []
    else if key = "CARGO_CFG_TARGET_OS" then some (Utf8.encode "wasi".toList)
    else none
  have h : (configure env fun _ => .accepts).exitCode = 0 := by decide +kernel
  obtain ⟨e, H⟩ := configured_of_exitCode h
  exact ⟨env, _, e, h, H⟩

end Stopping

/-- **Failing stages.** A run ends with status 0 or 101, and with 0 just if the place for the output
and the compiler are named by texts, the compiler starts and accepts the probe, and an engine is
chosen. Any other run stops at the first stage that fails, with the message of that stage, with the
lines that are printed before it and with a record of the probe just if the compiler was started.
Its lines are a proper part of what some run prints that ends well, and neither make a setting nor
export anything. A run that ends well prints its six or seven lines in one order. -/
theorem configure_stops_at_first_failure (env : Environment) (compilers : String → Compiler) :
    let run := configure env compilers
    (run.exitCode = 0 ∨ run.exitCode = 101) ∧
    (run.exitCode = 0 ↔ env.HasText "OUT_DIR" ∧
      (∃ name, env "RUSTC" = some (Utf8.encode name) ∧ compilers (String.ofList name) = .accepts) ∧
      ∃ e, choose env.target defaultRules env.enables = .ok e) ∧
    (run.exitCode ≠ 0 →
      (∃ stage message, StopsAt env compilers run stage message) ∧
      (∃ env' compilers', (configure env' compilers').exitCode = 0 ∧
        run.lines <+: (configure env' compilers').lines ∧
        run.lines ≠ (configure env' compilers').lines) ∧
      ∀ line ∈ run.lines,
        starts "cargo:rustc-cfg=" line = false ∧ starts "cargo:rustc-env=" line = false) ∧
    (run.exitCode = 0 → (run.lines.length = 6 ∨ run.lines.length = 7) ∧
      ∃ (e : Engine) (host : Bool), run.lines = watchLines ++ declarationLines ++
        (["cargo:rustc-cfg=snprintf_engine=\"" ++ e.name ++ "\""] ++
          (if host then [hostLine] else []) ++
          ["cargo:rustc-env=SNPRINTF_SHIM_ENGINE=" ++ e.name])) := by
  intro run
  refine ⟨?_, ?_, fun hfails => ⟨exists_stopsAt hfails, ?_, fun line hline => ?_⟩, fun hexit => ?_⟩
  · by_cases hexit : run.exitCode = 0
    · exact .inl hexit
    · obtain ⟨stage, message, H⟩ := exists_stopsAt hexit
      exact .inr H.exitCode_eq
  · rw [exitCode_eq_zero_iff, Environment.PassesProbe, and_assoc]
  · obtain ⟨env', compilers', e, hexit, H⟩ := exists_configured
    have hfixed := lines_isPrefix_of_exitCode hfails
    refine ⟨env', compilers', hexit, hfixed.trans H.isPrefix_lines.1, fun heq => ?_⟩
    have hlength := (heq ▸ hfixed).eq_of_length_le H.isPrefix_lines.1.length_le
    exact H.isPrefix_lines.2 hlength.symm
  · exact not_setting_of_mem_fixed ((lines_isPrefix_of_exitCode hfails).mem hline)
  · obtain ⟨e, H⟩ := configured_of_exitCode hexit
    refine ⟨?_, e, hostAvailable e (ruled defaultRules env.target), H.lines_eq⟩
    rw [H.lines_eq, settingLines]
    cases hostAvailable e (ruled defaultRules env.target) <;> simp [watchLines, declarationLines]

end FormattedOutput.Selection
