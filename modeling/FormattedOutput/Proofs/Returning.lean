import FormattedOutput.Proofs.Refusals

/-! Calls that return. With arguments that match the format, a write in the host's language is done
or fails, and one in the freestanding language is aborted if it uses an amount that is out of range
and only then (`EntryPoint.Matches.ending`). So a call returns, at every site or at none. -/

namespace FormattedOutput

namespace EntryPoint

variable {entry : EntryPoint} {engine : Engine} {fmt : Bytes} {args : List Argument}

/-- Arguments that match a format, in the language in which the write is carried out. -/
def Matches (entry : EntryPoint) (engine : Engine) (fmt : Bytes) (args : List Argument) : Prop :=
  match entry, engine with
  | .engine, .freestanding => Freestanding.Matches fmt.untilZero args
  | _, _ => Hosted.Matches fmt.untilZero args

/-- A write that uses an amount which is out of range: a width or a precision, or the length of a
text that has no precision. -/
def Overruns (entry : EntryPoint) (engine : Engine) (fmt : Bytes) (args : List Argument) : Prop :=
  match entry, engine with
  | .engine, .freestanding =>
    ∃ n ∈ Freestanding.demands (Template.parse Freestanding.Spec.scan fmt.untilZero) (.ofList args),
      ¬ Freestanding.InRange n
  | _, _ => False

theorem Matches.ending (h : entry.Matches engine fmt args) (errno : Int) :
    entry.Overruns engine fmt args ∧ (entry.outcome engine fmt args errno).ending = .aborted ∨
      ¬ entry.Overruns engine fmt args ∧
        ((entry.outcome engine fmt args errno).ending = .done ∨
          ∃ cause, (entry.outcome engine fmt args errno).ending = .failed cause) := by
  cases entry with
  | standIn => exact .inr ⟨id, Hosted.Matches.done_or_failed h errno⟩
  | engine =>
    cases engine with
    | hosted | ucrt | standIn => exact .inr ⟨id, Hosted.Matches.done_or_failed h errno⟩
    | freestanding =>
      have haborted : (Freestanding.format fmt.untilZero args).ending = .aborted ↔
          Overruns .engine .freestanding fmt args := by
        rw [Freestanding.format_eq]
        exact Freestanding.aborted_iff _ _
      rw [← haborted]
      rcases Freestanding.Matches.ending h with hending | ⟨-, hending⟩ | ⟨-, hending⟩
      · exact .inl ⟨hending, hending⟩
      · exact .inr ⟨by simp [hending], .inl hending⟩
      · exact .inr ⟨by simp [hending], .inr ⟨_, hending⟩⟩

end EntryPoint

namespace Site

/-- **Returning calls.** A call with arguments that match the format returns the length of the text
or -1, at every site, unless the write uses an amount that is out of range. In that case the process
is aborted, at every site too. Only the freestanding engine has such amounts. -/
theorem call_returns_iff (engine : Engine) (entry : EntryPoint) (fmt : Bytes) (args : List Argument)
    (errno : Int) (h : entry.Matches engine fmt args) (c : Site) :
    ((∃ reply : Reply, c.call engine entry fmt args errno = .returned reply ∧
        (reply.value = -1 ∨ reply.value = (entry.outcome engine fmt args errno).bytes.length)) ↔
      ¬ entry.Overruns engine fmt args) ∧
    (entry.Overruns engine fmt args → c.call engine entry fmt args errno = .aborted) := by
  rw [call_eq]
  rcases h.ending errno with ⟨hoverruns, haborted⟩ | ⟨hnot, hdone | ⟨cause, hfailed⟩⟩
  · rw [Outcome.result_of_aborted haborted]
    refine ⟨⟨?_, fun hnot => absurd hoverruns hnot⟩, fun _ => rfl⟩
    rintro ⟨reply, hreply, -⟩
    cases hreply
  · refine ⟨⟨fun _ => hnot, fun _ => ?_⟩, fun hoverruns => absurd hoverruns hnot⟩
    refine ⟨_, Outcome.result_of_done hdone _ _, .inr ?_⟩
    rw [Outcome.bytes, Rope.length_toList]
  · refine ⟨⟨fun _ => hnot, fun _ => ?_⟩, fun hoverruns => absurd hoverruns hnot⟩
    exact ⟨_, Outcome.result_of_failed hfailed _ _, .inl rfl⟩

/-- A width that is out of range, behind a letter that is refused, is not used. -/
theorem call_returns_iff_refused_letter :
    ((∃ reply : Reply,
        (whole [0xa5, 0xa5] []).call .freestanding .engine ("%-*d%y%65536d".toList.map Char.toUInt8)
          [.word 5, .word 42] 0 = .returned reply ∧
        (reply.value = -1 ∨ reply.value = (EntryPoint.outcome .engine .freestanding
          ("%-*d%y%65536d".toList.map Char.toUInt8) [.word 5, .word 42] 0).bytes.length)) ↔
      ¬ EntryPoint.Overruns .engine .freestanding ("%-*d%y%65536d".toList.map Char.toUInt8)
        [.word 5, .word 42]) ∧
    (EntryPoint.Overruns .engine .freestanding ("%-*d%y%65536d".toList.map Char.toUInt8)
        [.word 5, .word 42] →
      (whole [0xa5, 0xa5] []).call .freestanding .engine ("%-*d%y%65536d".toList.map Char.toUInt8)
        [.word 5, .word 42] 0 = .aborted) :=
  call_returns_iff .freestanding .engine _ _ _
    (by decide +kernel : Freestanding.Matches _ [.word 5, .word 42]) _

/-- A width of -5. The host's formatter takes it for a field of five with the number on the left,
and the freestanding engine aborts. -/
theorem negative_width_aborts :
    EntryPoint.Matches .engine .freestanding ("%*d".toList.map Char.toUInt8)
      [.word (0 - 5), .word 42] ∧
      (whole [0xa5, 0xa5, 0xa5, 0xa5] []).call .hosted .engine ("%*d".toList.map Char.toUInt8)
          [.word (0 - 5), .word 42] 0 =
        .returned { value := 5, errno := 0, buffer := [52, 50, 32, 0], cells := [] } ∧
      ∀ c : Site, c.call .freestanding .engine ("%*d".toList.map Char.toUInt8)
        [.word (0 - 5), .word 42] 0 = .aborted := by
  have hmatches : Freestanding.Matches (Bytes.untilZero ("%*d".toList.map Char.toUInt8))
      [.word (0 - 5), .word 42] := by decide +kernel
  refine ⟨hmatches, by decide +kernel, fun c => ?_⟩
  rw [call_eq]
  exact Outcome.result_of_aborted (by decide +kernel) _ _

end Site

end FormattedOutput
