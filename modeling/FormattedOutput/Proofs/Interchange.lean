import FormattedOutput.Session

/-! The engines over a C runtime can take each other's place. Steps that show the same, whatever is
in the buffer, make sessions that show the same (`Build.session_congr`); and what holds of every
answer to a step holds of the answers along a session (`Build.answer_of_mem_zip`). -/

namespace FormattedOutput

/-- An answer without what tells builds apart: the name of the engine, the log,
and the forwarded calls. -/
def Answer.withoutBuild : Answer → Answer
  | constants _ behavior => constants "" behavior
  | filled buffer => filled buffer
  | called result _ => called result {}

/-- What a step leaves besides its result. -/
def Answer.trace : Answer → Trace
  | called _ trace => trace
  | constants .. | filled _ => {}

theorem Answer.buffer?_eq_of_withoutBuild_eq {a a' : Answer} (h : a.withoutBuild = a'.withoutBuild)
    (before : Bytes) : a.buffer? before = a'.buffer? before := by
  cases a <;> cases a' <;> simp_all [withoutBuild, buffer?]

/-- The calls that a step forwards if the engine is the Universal C Runtime: a write
forwards one, with the standard option word, a null locale and its own arguments, and no
other step forwards any. -/
def Step.forwards : Step → List Forwarded
  | write _ r =>
    [{ extras := { options := 2, localeNull := true }, destNull := r.dest.isNone,
       capacity := r.capacity, formatNull := r.format.isNone }]
  | constants | fill _ | standIn .. => []

namespace Build

variable {b b' : Build} {steps : List Step}

theorem session_congr
    (h : ∀ buffer, ∀ step ∈ steps,
      (b.answer buffer step).withoutBuild = (b'.answer buffer step).withoutBuild) (buffer : Bytes) :
    (b.session buffer steps).map Answer.withoutBuild =
      (b'.session buffer steps).map Answer.withoutBuild := by
  -- both sessions go on with the same buffer, which only what is shown of a step decides on
  induction steps generalizing buffer with
  | nil => rfl
  | cons step steps ih =>
    have hstep := h buffer step List.mem_cons_self
    have hnext := Answer.buffer?_eq_of_withoutBuild_eq hstep buffer
    simp only [session, ← hnext]
    cases (b.answer buffer step).buffer? buffer with
    | none => simp [hstep]
    | some after =>
      have hlater := ih (fun buffer step hmem => h buffer step (List.mem_cons_of_mem _ hmem)) after
      simp [hstep, hlater]

/-- The answers of a session are given to its steps in order, each in some state of the buffer. -/
theorem answer_of_mem_zip {buffer : Bytes} {p : Step × Answer}
    (h : p ∈ steps.zip (b.session buffer steps)) : ∃ before, p.2 = b.answer before p.1 := by
  induction steps generalizing buffer with
  | nil => simp at h
  | cons step steps ih =>
    simp only [session] at h
    cases hnext : (b.answer buffer step).buffer? buffer with
    | none =>
      simp only [hnext, List.zip_cons_cons, List.zip_nil_right, List.mem_singleton] at h
      exact ⟨buffer, h ▸ rfl⟩
    | some after =>
      simp only [hnext, List.zip_cons_cons, List.mem_cons] at h
      rcases h with rfl | h
      · exact ⟨buffer, rfl⟩
      · exact ih h

/-! ## Single steps -/

theorem answer_standIn_ucrt (l l' : Bool) (buffer : Bytes) (step : Step) :
    ((mk .standIn l).answer buffer step).withoutBuild =
      ((mk .ucrt l').answer buffer step).withoutBuild := by
  cases step <;> rfl

theorem answer_hosted_standIn (l l' : Bool) (buffer : Bytes) {step : Step}
    (h : ∀ level r, step = .write level r → r.format ≠ none ∧ (r.dest ≠ none ∨ r.capacity = 0)) :
    ((mk .hosted l).answer buffer step).withoutBuild =
      ((mk .standIn l').answer buffer step).withoutBuild := by
  cases step with
  | constants | fill _ | standIn _ _ _ => rfl
  | write level r =>
    have hlacking : r.lacking = false := by
      obtain ⟨hfmt, hroom⟩ := h level r rfl
      have hfmt' := Option.isSome_iff_ne_none.2 hfmt
      rcases hroom with hdest | hcap
      · simp [Request.lacking, hfmt', hdest]
      · simp [Request.lacking, hfmt', hcap]
    simp [answer, write, Build.standIn, checked, hlacking, Answer.withoutBuild]

/-- A write passes no option bit that the stand-in does not know, so that nothing is logged. -/
theorem log_answer_write (b : Build) (buffer : Bytes) (level : LogLevel) (r : Request) :
    (b.answer buffer (.write level r)).trace.log = [] := by
  have hlogged : b.logged level .standard = [] := if_neg fun h => h.2.1 rfl
  cases hengine : b.engine <;> simp [answer, write, Build.standIn, hengine, Answer.trace, hlogged]

theorem forwarded_answer_ucrt (l : Bool) (buffer : Bytes) (step : Step) :
    ((mk .ucrt l).answer buffer step).trace.forwarded = step.forwards := by
  cases step <;> rfl

/-! ## Sessions -/

/-- **Interchange.** A session whose writes have a format, and a destination or no capacity, shows
the same on the host's formatter, on the stand-in and on the Universal C Runtime; between the last
two any session does. On no engine does a write log anything. On the Universal C Runtime every write
forwards one call, with its own arguments, and no other step forwards any. -/
theorem session_interchange (l₁ l₂ l₃ : Bool) (buffer : Bytes) (steps : List Step) :
    ((∀ level r, .write level r ∈ steps → r.format ≠ none ∧ (r.dest ≠ none ∨ r.capacity = 0)) →
      ((mk .hosted l₁).session buffer steps).map Answer.withoutBuild =
        ((mk .standIn l₂).session buffer steps).map Answer.withoutBuild) ∧
    ((mk .standIn l₂).session buffer steps).map Answer.withoutBuild =
      ((mk .ucrt l₃).session buffer steps).map Answer.withoutBuild ∧
    (∀ (b : Build) (level : LogLevel) (r : Request) (answer : Answer),
      (.write level r, answer) ∈ steps.zip (b.session buffer steps) → answer.trace.log = []) ∧
    ∀ p ∈ steps.zip ((mk .ucrt l₃).session buffer steps), p.2.trace.forwarded = p.1.forwards := by
  refine ⟨fun h => ?_, ?_, fun b level r answer hmem => ?_, fun p hmem => ?_⟩
  · refine session_congr (fun before step hmem => ?_) buffer
    exact answer_hosted_standIn l₁ l₂ before fun level r heq => h level r (heq ▸ hmem)
  · exact session_congr (fun before step _ => answer_standIn_ucrt l₂ l₃ before step) buffer
  · obtain ⟨before, heq⟩ := answer_of_mem_zip hmem
    have hlog := log_answer_write b before level r
    rwa [← heq] at hlog
  · obtain ⟨before, heq⟩ := answer_of_mem_zip hmem
    rw [heq]
    exact forwarded_answer_ucrt l₃ before p.1

/-- A write cut to its room, a call of the stand-in that lacks its format, and a write of the error
that the caller met, over one buffer. -/
theorem session_interchange_three_steps :
    let r : Request :=
      { dest := some 1, capacity := 4, format := some ("%x/%m".toList.map Char.toUInt8),
        args := [.word 0xbeef], errno := 22, cells := [] }
    let steps : List Step :=
      [.fill 7, .write .debug r, .standIn .trace { options := 6, localeNull := false }
        { r with format := none }, .write .off { r with dest := none, capacity := 0 }]
    (∀ level r, .write level r ∈ steps → r.format ≠ none ∧ (r.dest ≠ none ∨ r.capacity = 0)) ∧
      ((mk .hosted true).session (List.replicate 8 0) steps).map Answer.withoutBuild =
        ((mk .standIn true).session (List.replicate 8 0) steps).map Answer.withoutBuild := by
  intro r steps
  have h : ∀ level r, .write level r ∈ steps →
      r.format ≠ none ∧ (r.dest ≠ none ∨ r.capacity = 0) := by
    intro level r hmem
    simp only [steps, List.mem_cons, List.not_mem_nil, Step.write.injEq, reduceCtorEq, or_false,
      false_or] at hmem
    rcases hmem with ⟨-, rfl⟩ | ⟨-, rfl⟩ <;> simp
  exact ⟨h, (session_interchange true true false _ steps).1 h⟩

end Build

end FormattedOutput
