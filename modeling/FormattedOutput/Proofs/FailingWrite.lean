import Mathlib.Data.List.Basic
import Mathlib.Data.List.TakeWhile
import FormattedOutput.Proofs.BoundedWrite
import FormattedOutput.Proofs.Moves
import FormattedOutput.Proofs.Supply

/-! Writes that fail. A write fails at one part of its format, behind the parts that it gets through
(`FailsAt`). What a buffer holds then is what these parts write, cut to the room there is. A wide
text is the only part that writes something and then fails: the blocks in front of a character that
has no byte (`Hosted.Remnant`). The format and the arguments fix all of this
(`EntryPoint.FailsBehind.unique`). -/

namespace FormattedOutput

/-- A write gets through the parts `before`, which write `front` and store some counts, and fails at
the next one, whatever stands behind it. -/
def FailsAt {ι : Type} (run : List ι → Outcome) (parts before : List ι) (part : ι) (cause : Cause)
    (front : Bytes) (stores : List Store) : Prop :=
  (∃ later, parts = before ++ part :: later) ∧
    (run before).ending = .done ∧ (run before).bytes = front ∧ (run before).stores = stores ∧
    (run (before ++ [part])).ending = .failed cause

section Moves

variable {ι St : Type} {move : ι → St → Move St} {parts : List ι} {s : St}

theorem exists_failing_part {cause : Cause} (h : (runMoves move parts s).ending = .failed cause) :
    ∃ before part text mid last early,
      Passes move before s text (runMoves move parts s).stores mid ∧
      move part mid = .halt last (.failed cause) early ∧
      (runMoves move parts s).text = text ++ last ∧
      FailsAt (runMoves move · s) parts before part cause text.toList
        (runMoves move parts s).stores := by
  have hnot : (runMoves move parts s).ending ≠ .done := by simp [h]
  obtain ⟨before, part, later, text, stores, mid, last, ending, early, rfl, H, hhalt⟩ :=
    exists_halt hnot
  rw [runMoves_of_halt H hhalt later] at h ⊢
  cases h
  refine ⟨before, part, text, mid, last, early, H, hhalt, rfl, ⟨later, rfl⟩, ?_⟩
  beta_reduce
  rw [H.runMoves_eq, runMoves_of_halt H hhalt []]
  exact ⟨rfl, rfl, rfl, rfl⟩

/-- A write does not get through a part at which it fails, so that nothing stands between the parts
that it gets through and that one. -/
theorem eq_nil_of_failing {before rest : List ι} {part : ι} {cause : Cause}
    (hfails : (runMoves move (before ++ [part]) s).ending = .failed cause)
    (hdone : (runMoves move (before ++ rest) s).ending = .done)
    (hrest : ∀ x ∈ rest.head?, x = part) : rest = [] := by
  cases rest with
  | nil => rfl
  | cons x rest =>
    obtain rfl := hrest x rfl
    obtain ⟨_, H⟩ := passes_of_done hdone
    obtain ⟨mid, _, _, _, _, Hbefore, Hrest, -, -⟩ := H.exists_of_append
    obtain ⟨next, _, _, _, _, hmove, -, -, -⟩ := Hrest.exists_of_cons
    rw [(Hbefore.append (.cons hmove (.nil next))).runMoves_eq] at hfails
    cases hfails

/-- A write fails at one part of its format only. -/
theorem FailsAt.unique {before before' : List ι} {part part' : ι} {cause cause' : Cause}
    {front front' : Bytes} {stores stores' : List Store}
    (H : FailsAt (runMoves move · s) parts before part cause front stores)
    (H' : FailsAt (runMoves move · s) parts before' part' cause' front' stores') :
    before = before' ∧ part = part' ∧ cause = cause' ∧ front = front' ∧ stores = stores' := by
  obtain ⟨⟨later, rfl⟩, hdone, rfl, rfl, hfails⟩ := H
  obtain ⟨⟨later', hparts⟩, hdone', rfl, rfl, hfails'⟩ := H'
  have hbefore : before = before' := by
    rcases List.append_eq_append_iff.1 hparts with ⟨rest, rfl, hrest⟩ | ⟨rest, rfl, hrest⟩
    · have hnil := eq_nil_of_failing hfails hdone' fun x hx => by cases rest <;> simp_all
      rw [hnil, List.append_nil]
    · have hnil := eq_nil_of_failing hfails' hdone fun x hx => by cases rest <;> simp_all
      rw [hnil, List.append_nil]
  subst hbefore
  obtain ⟨rfl, -⟩ := List.cons.inj (List.append_cancel_left hparts)
  exact ⟨rfl, rfl, Ending.failed.inj (hfails.symm.trans hfails'), rfl, rfl⟩

end Moves

namespace Hosted

/-! ## What is left of a wide text -/

theorem exists_unencodable {codes : List Nat} (h : codes.mapM wideByte? = none) :
    ∃ front bad later, codes = front ++ bad :: later ∧ (∀ code ∈ front, code < 128) ∧
      128 ≤ bad := by
  induction codes with
  | nil => simp at h
  | cons code codes ih =>
    by_cases hcode : code < 128
    · have hlater : codes.mapM wideByte? = none := by
        rw [Option.eq_none_iff_forall_ne_some]
        simpa [List.mapM_cons, wideByte?, hcode] using h
      obtain ⟨front, bad, later, rfl, hfront, hbad⟩ := ih hlater
      refine ⟨code :: front, bad, later, rfl, ?_, hbad⟩
      simpa [hcode] using hfront
    · exact ⟨[], code, codes, rfl, by simp, by omega⟩

/-- The first character of another sort ends the front of a text. -/
theorem takeWhile_front {q : Nat → Bool} {front later : List Nat} {bad : Nat}
    (hfront : ∀ code ∈ front, q code) (hbad : ¬ q bad) :
    (front ++ bad :: later).takeWhile q = front := by
  rw [List.takeWhile_append_of_pos hfront, List.takeWhile_cons_of_neg hbad, List.append_nil]

/-- As much of a text as whole blocks hold. -/
def wholeBlocks (codes : List Nat) : List Nat := codes.take (codes.length / wideBlock * wideBlock)

theorem wideFront_eq {l : Layout} {front later : List Nat} {bad : Nat}
    (hfront : ∀ code ∈ front, code < 128) (hbad : 128 ≤ bad) :
    wideFront l (front ++ bad :: later) =
      if l.width ≠ 0 ∧ ¬ l.flags.left ∧ l.precision.isSome then []
      else (wholeBlocks front).map UInt8.ofNat := by
  have hsome (code : Nat) (hmem : code ∈ front) : (wideByte? code).isSome := by
    simp [wideByte?, hfront code hmem]
  have hnone : ¬ (wideByte? bad).isSome := by simp [wideByte?, hbad]
  have htake : (front ++ bad :: later).takeWhile (fun code => (wideByte? code).isSome) = front :=
    takeWhile_front hsome hnone
  have hbytes : front.filterMap wideByte? = front.map UInt8.ofNat :=
    List.filterMap_eq_map_iff_forall_eq_some.2
      fun code hmem => by simp [wideByte?, hfront code hmem]
  simp only [wideFront, htake, hbytes, List.length_map, ← List.map_take, wholeBlocks]

theorem Layout.cut_isPrefix {α : Type} (l : Layout) (xs : List α) : l.cut xs <+: xs := by
  unfold cut
  split
  · exact List.take_prefix _ _
  · exact List.prefix_rfl

theorem wideText_eq_error {l : Layout} {codes : List Nat} {piece : Bytes}
    (h : wideText l codes = .error piece) :
    ∃ front bad later, codes = front ++ bad :: later ∧ (∀ code ∈ front, 0 < code ∧ code < 128) ∧
      128 ≤ bad ∧
      piece = if l.width ≠ 0 ∧ ¬ l.flags.left ∧ l.precision.isSome then []
        else (wholeBlocks front).map UInt8.ofNat := by
  generalize hnonzero : codes.takeWhile (· ≠ 0) = nonzero
  have hkept := l.cut_isPrefix nonzero
  simp only [wideText, hnonzero] at h
  cases hbytes : (l.cut nonzero).mapM wideByte? with
  | some bs => simp [hbytes] at h
  | none =>
    obtain ⟨front, bad, later, hsplit, hfront, hbad⟩ := exists_unencodable hbytes
    simp only [hbytes, Except.error.injEq] at h
    rw [hsplit, wideFront_eq hfront hbad] at h
    obtain ⟨more, hmore⟩ := hkept.trans (hnonzero ▸ List.takeWhile_prefix _)
    refine ⟨front, bad, later ++ more, ?_, fun code hmem => ⟨?_, hfront code hmem⟩, hbad, h.symm⟩
    · rw [← hmore, hsplit, List.append_assoc, List.cons_append]
    · have hcode : code ∈ nonzero := hkept.subset (by simp [hsplit, hmem])
      rw [← hnonzero] at hcode
      simpa [Nat.pos_iff_ne_zero] using List.mem_takeWhile_imp hcode

/-- What a part writes itself at which a write fails for some cause, in the state of the write
before that part. Of a wide text with a character that has no byte these are the blocks in front of
that character, or nothing if the text is measured for its field first. -/
inductive Remnant (p : Progress) : Item Spec → Cause → Bytes → Prop where
  | nothing {part : Item Spec} {cause : Cause}
      (hother : cause = .unencodable → ∀ spec letter wide, part = .directive spec letter →
        Conversion.ofLetter letter ≠ .text wide) :
      Remnant p part cause []
  | blocks {spec : Spec} {letter : UInt8} {wide : Bool} {manner : Manner} {l : Layout}
      {mid s' : Supply} {front later : List Nat} {bad : Nat}
      (hletter : Conversion.ofLetter letter = .text wide)
      (hnext : p.manner.next spec (some letter) = .ok manner)
      (hsettle : spec.settle manner p.supply = some (l, mid))
      (htake : mid.take spec.source = some (.wideText (front ++ bad :: later), s'))
      (hfront : ∀ code ∈ front, 0 < code ∧ code < 128) (hbad : 128 ≤ bad) :
      Remnant p (.directive spec letter) .unencodable
        (if l.width ≠ 0 ∧ ¬ l.flags.left ∧ l.precision.isSome then []
         else (wholeBlocks front).map UInt8.ofNat)

/-- The codes that have a byte end where the first character without one stands. -/
theorem front_eq_takeWhile {front later : List Nat} {bad : Nat}
    (hfront : ∀ code ∈ front, 0 < code ∧ code < 128) (hbad : 128 ≤ bad) :
    (front ++ bad :: later).takeWhile (· < 128) = front :=
  takeWhile_front (fun code hmem => decide_eq_true (hfront code hmem).2) (by simpa using hbad)

theorem Remnant.unique {p : Progress} {part : Item Spec} {cause : Cause} {piece piece' : Bytes}
    (H : Remnant p part cause piece) (H' : Remnant p part cause piece') : piece = piece' := by
  cases H with
  | nothing hother =>
    cases H' with
    | nothing => rfl
    | blocks hletter => exact absurd hletter (hother rfl _ _ _ rfl)
  | blocks hletter hnext hsettle htake hfront hbad =>
    cases H' with
    | nothing hother => exact absurd hletter (hother rfl _ _ _ rfl)
    | blocks _ hnext' hsettle' htake' hfront' hbad' =>
      cases hnext.symm.trans hnext'
      cases hsettle.symm.trans hsettle'
      have hcodes := htake.symm.trans htake'
      simp only [Option.some.injEq, Prod.mk.injEq, Argument.wideText.injEq] at hcodes
      rw [← front_eq_takeWhile hfront hbad, hcodes.1, front_eq_takeWhile hfront' hbad']

/-! ## What a part can do -/

variable {errno : Int} {part : Item Spec} {p : Progress} {text last : Rope UInt8} {ending : Ending}
  {early : ending ≠ .done}

theorem cause_of_next {manner : Manner} {spec : Spec} {letter : Option UInt8} {cause : Cause}
    (h : manner.next spec letter = .error cause) : cause ∈ [.unfinished, .oversized] := by
  cases manner with
  | lenient => cases h
  | strict =>
    simp only [Manner.next, Spec.manner] at h
    split at h <;> cases h <;> simp

theorem remnant_of_perform {manner : Manner} {spec : Spec} {letter : UInt8} {s' : Supply}
    {piece : Bytes} {cause : Cause} (hnext : p.manner.next spec (some letter) = .ok manner)
    (h : perform manner errno spec (some letter) p.supply = some (.fail piece cause, s')) :
    cause = .unencodable ∧ Remnant p (.directive spec letter) cause piece := by
  obtain ⟨l, mid, letter', arg, hletter, hsettle, htake, happly⟩ := apply_of_perform h nofun
  cases hletter
  obtain ⟨_, hwrite⟩ | ⟨-, _, hstore⟩ | ⟨hother, hfail⟩
      | ⟨wide, codes, piece, hc, rfl, hwide, hfail⟩ :=
    Conversion.apply_cases happly
  · cases hwrite
  · cases hstore
  · cases hfail
    refine ⟨rfl, .nothing fun _ spec' letter' wide hpart => ?_⟩
    cases hpart
    exact hother wide
  · cases hfail
    refine ⟨rfl, ?_⟩
    obtain ⟨front, bad, later, rfl, hfront, hbad, rfl⟩ := wideText_eq_error hwide
    exact .blocks hc hnext hsettle htake hfront hbad

theorem Progress.halt_of_offer (h : p.offer text = .halt last ending early) :
    ending = .failed .oversized ∧ maxInt < p.written + last.length := by
  unfold offer at h
  split at h
  · cases h
    exact ⟨rfl, by assumption⟩
  · cases h

theorem halt_of_directiveMove {spec : Spec} {letter : Option UInt8} {cause : Cause}
    {early : Ending.failed cause ≠ .done}
    (h : directiveMove errno spec letter p = .halt last (.failed cause) early) :
    (cause = .oversized ∧ maxInt < p.written + last.length) ∨
      (cause ∈ [.unfinished, .oversized] ∧ last.toList = []) ∨
      ∃ manner s, p.manner.next spec letter = .ok manner ∧
        perform manner errno spec letter p.supply = some (.fail last.toList cause, s) := by
  unfold directiveMove at h
  split at h
  · next hnext =>
    cases h
    exact .inr (.inl ⟨cause_of_next hnext, rfl⟩)
  next manner hnext =>
  split at h
  · next effect s hperform =>
    cases effect with
    | write text =>
      obtain ⟨hcause, hcount⟩ := Progress.halt_of_offer h
      cases hcause
      exact .inl ⟨rfl, hcount⟩
    | store => cases h
    | fail piece cause =>
      cases h
      rw [Rope.toList_ofList]
      exact .inr (.inr ⟨_, _, hnext, hperform⟩)
  · cases h

/-- A part at which a write fails, unless there is more of it than an `int` can count. -/
theorem remnant_of_halt {cause : Cause} {early : Ending.failed cause ≠ .done}
    (h : move errno part p = .halt last (.failed cause) early) :
    cause = .oversized ∧ maxInt < p.written + last.length ∨
      cause ≠ .refused ∧ Remnant p part cause last.toList := by
  have hnothing (hcause : cause ∈ [.unfinished, .oversized]) (hlast : last.toList = []) :
      cause ≠ .refused ∧ Remnant p part cause last.toList := by
    rw [hlast]
    refine ⟨?_, .nothing fun hunencodable => ?_⟩
    · rintro rfl
      simp at hcause
    · simp [hunencodable] at hcause
  cases part with
  | literal text =>
    obtain ⟨hcause, hcount⟩ := Progress.halt_of_offer h
    cases hcause
    exact .inl ⟨rfl, hcount⟩
  | directive spec letter =>
    rcases halt_of_directiveMove h with hcount | ⟨hcause, hlast⟩ | ⟨manner, s, hnext, hperform⟩
    · exact .inl hcount
    · exact .inr (hnothing hcause hlast)
    · obtain ⟨rfl, hremnant⟩ := remnant_of_perform hnext hperform
      exact .inr ⟨nofun, hremnant⟩
  | unfinished spec =>
    rcases halt_of_directiveMove h with hcount | ⟨hcause, hlast⟩ | ⟨manner, s, hnext, hperform⟩
    · exact .inl hcount
    · exact .inr (hnothing hcause hlast)
    · obtain ⟨_, _, _, _, hletter, _⟩ := apply_of_perform hperform nofun
      cases hletter

/-- Where a write stands behind some parts that it gets through. -/
def Reaches (errno : Int) (args : List Argument) (before : List (Item Spec))
    (p : Progress) : Prop :=
  ∃ text stores, Passes (move errno) before (.start args) text stores p

/-- The number that an error is given by. -/
def Numbered (cause : Cause) (number : Int) : Prop :=
  (cause, number) ∈ [(.unfinished, 22), (.oversized, 75), (.unencodable, 84)]

theorem Numbered.unique {cause : Cause} {number number' : Int} (h : Numbered cause number)
    (h' : Numbered cause number') : number = number' := by
  cases cause <;> simp_all [Numbered]

/-- A write fails at one part of its format. The parts before it write `front` and store some
counts, the part itself writes `piece` in the state that they leave, and the cause decides on the
error number. -/
def FailsBehind (fmt : Bytes) (args : List Argument) (errno : Int) (front piece : Bytes)
    (stores : List Store) (number : Int) : Prop :=
  ∃ before part cause p,
    FailsAt (run errno · .strict (.ofList args) 0) (Template.parse Spec.scan fmt) before part cause
      front stores ∧
    Reaches errno args before p ∧ Numbered cause number ∧ Remnant p part cause piece

theorem run_start_eq (errno : Int) (args : List Argument) :
    (run errno · .strict (.ofList args) 0) = (runMoves (move errno) · (.start args)) :=
  funext fun parts => run_eq errno parts (.start args)

theorem FailsBehind.unique {fmt : Bytes} {args : List Argument} {front front' piece piece' : Bytes}
    {stores stores' : List Store} {number number' : Int}
    (H : FailsBehind fmt args errno front piece stores number)
    (H' : FailsBehind fmt args errno front' piece' stores' number') :
    front = front' ∧ piece = piece' ∧ stores = stores' ∧ number = number' := by
  obtain ⟨before, part, cause, p, hfails, ⟨_, _, hreach⟩, hnumber, hremnant⟩ := H
  obtain ⟨before', part', cause', p', hfails', ⟨_, _, hreach'⟩, hnumber', hremnant'⟩ := H'
  rw [run_start_eq] at hfails hfails'
  obtain ⟨rfl, rfl, rfl, rfl, rfl⟩ := hfails.unique hfails'
  obtain ⟨-, -, rfl⟩ := hreach.unique hreach'
  exact ⟨rfl, hremnant.unique hremnant', rfl, hnumber.unique hnumber'⟩

theorem exists_failsBehind {fmt : Bytes} {args : List Argument} {cause : Cause}
    (h : (format fmt args errno).ending = .failed cause)
    (hcount : cause = .oversized → (format fmt args errno).text.length ≤ maxInt) :
    ∃ front piece,
      FailsBehind fmt args errno front piece (format fmt args errno).stores
        ((Errno.ofCause cause).getD errno) ∧
      (format fmt args errno).bytes = front ++ piece := by
  unfold FailsBehind
  rw [run_start_eq]
  rw [format_eq] at h hcount ⊢
  obtain ⟨before, part, text, mid, last, early, H, hhalt, htext, hfails⟩ := exists_failing_part h
  refine ⟨text.toList, last.toList, ?_, by rw [Outcome.bytes, htext, Rope.toList_append]⟩
  rcases remnant_of_halt hhalt with ⟨hcause, hmax⟩ | ⟨hcause, hremnant⟩
  · -- the count before the part is the length of the text before it
    have hmost := hcount hcause
    have hwritten : mid.written = 0 + text.length := (advances_of_passes H).written
    rw [htext, Rope.length_append] at hmost
    omega
  · refine ⟨before, part, cause, mid, hfails, ⟨_, _, H⟩, ?_, hremnant⟩
    cases cause with
    | unfinished | oversized | unencodable =>
      simp [Numbered, Errno.ofCause, Errno.invalid, Errno.overflow, Errno.illegalSequence]
    | refused => exact absurd rfl hcause

end Hosted

namespace Freestanding

variable {part : Item Spec} {s : Supply} {last : Rope UInt8} {cause : Cause}
  {early : Ending.failed cause ≠ .done}

theorem Attempt.halt_of_move {a : Attempt} (h : a.move s = .halt last (.failed cause) early) :
    cause = .refused ∧ last = ⟨[]⟩ := by
  cases a <;> cases h
  exact ⟨rfl, rfl⟩

theorem halt_of_move (h : move part s = .halt last (.failed cause) early) :
    cause = .refused ∧ last = ⟨[]⟩ := by
  cases part with
  | literal => exact Attempt.halt_of_move h
  | unfinished =>
    cases h
    exact ⟨rfl, rfl⟩
  | directive spec letter =>
    simp only [move] at h
    split at h
    · exact Attempt.halt_of_move h
    · cases h

/-- A write fails at one part of its format, and the parts before it write `front` and store some
counts. -/
def FailsBehind (fmt : Bytes) (args : List Argument) (front : Bytes) (stores : List Store) : Prop :=
  ∃ before part cause,
    FailsAt (run · (.ofList args)) (Template.parse Spec.scan fmt) before part cause front stores

theorem run_start_eq (args : List Argument) :
    (run · (.ofList args)) = (runMoves move · (.ofList args)) :=
  funext fun parts => run_eq parts (.ofList args)

theorem FailsBehind.unique {fmt : Bytes} {args : List Argument} {front front' : Bytes}
    {stores stores' : List Store} (H : FailsBehind fmt args front stores)
    (H' : FailsBehind fmt args front' stores') : front = front' ∧ stores = stores' := by
  obtain ⟨before, part, cause, hfails⟩ := H
  obtain ⟨before', part', cause', hfails'⟩ := H'
  rw [run_start_eq] at hfails hfails'
  exact (hfails.unique hfails').2.2.2

theorem failsBehind_of_failed {fmt : Bytes} {args : List Argument}
    (h : (format fmt args).ending = .failed cause) :
    cause = .refused ∧
      FailsBehind fmt args (format fmt args).bytes (format fmt args).stores := by
  unfold FailsBehind
  rw [run_start_eq]
  rw [format_eq] at h ⊢
  obtain ⟨before, part, text, mid, last, early, H, hhalt, htext, hfails⟩ := exists_failing_part h
  obtain ⟨hcause, rfl⟩ := halt_of_move hhalt
  rw [Rope.append_nil] at htext
  exact ⟨hcause, before, part, cause, by rwa [Outcome.bytes, htext]⟩

end Freestanding

/-! ## Calls -/

namespace EntryPoint

/-- A write fails since an `int` cannot count all of it. -/
def Overflows (entry : EntryPoint) (engine : Engine) (fmt : Bytes) (args : List Argument)
    (errno : Int) : Prop :=
  (entry.outcome engine fmt args errno).ending = .failed .oversized ∧
    Hosted.maxInt < (entry.outcome engine fmt args errno).text.length

instance (entry : EntryPoint) (engine : Engine) (fmt : Bytes) (args : List Argument) (errno : Int) :
    Decidable (entry.Overflows engine fmt args errno) :=
  inferInstanceAs (Decidable (_ ∧ _))

/-- A write fails behind some parts of its format, which write `front`. The freestanding engine
writes nothing else, and keeps the error number. -/
def FailsBehind (entry : EntryPoint) (engine : Engine) (fmt : Bytes) (args : List Argument)
    (errno : Int) (front piece : Bytes) (stores : List Store) (number : Int) : Prop :=
  match entry, engine with
  | .engine, .freestanding =>
    Freestanding.FailsBehind fmt.untilZero args front stores ∧ piece = [] ∧ number = errno
  | _, _ => Hosted.FailsBehind fmt.untilZero args errno front piece stores number

variable {engine : Engine} {entry : EntryPoint} {fmt : Bytes} {args : List Argument} {errno : Int}

theorem FailsBehind.unique {front front' piece piece' : Bytes} {stores stores' : List Store}
    {number number' : Int} (H : entry.FailsBehind engine fmt args errno front piece stores number)
    (H' : entry.FailsBehind engine fmt args errno front' piece' stores' number') :
    front = front' ∧ piece = piece' ∧ stores = stores' ∧ number = number' := by
  cases entry with
  | standIn => exact Hosted.FailsBehind.unique H H'
  | engine =>
    cases engine with
    | hosted | ucrt | standIn => exact Hosted.FailsBehind.unique H H'
    | freestanding =>
      obtain ⟨hfails, rfl, rfl⟩ := H
      obtain ⟨hfails', rfl, rfl⟩ := H'
      obtain ⟨rfl, rfl⟩ := hfails.unique hfails'
      exact ⟨rfl, rfl, rfl, rfl⟩

theorem exists_failsBehind {cause : Cause}
    (h : (entry.outcome engine fmt args errno).ending = .failed cause)
    (hcount : ¬ entry.Overflows engine fmt args errno) :
    ∃ front piece,
      entry.FailsBehind engine fmt args errno front piece
        (entry.outcome engine fmt args errno).stores
        ((Errno.ofCause cause).getD errno) ∧
      (entry.outcome engine fmt args errno).bytes = front ++ piece := by
  have hmax (hcause : cause = .oversized) :
      (entry.outcome engine fmt args errno).text.length ≤ Hosted.maxInt :=
    Nat.le_of_not_lt fun hlt => hcount ⟨by rw [h, hcause], hlt⟩
  cases entry with
  | standIn => exact Hosted.exists_failsBehind h hmax
  | engine =>
    cases engine with
    | hosted | ucrt | standIn => exact Hosted.exists_failsBehind h hmax
    | freestanding =>
      obtain ⟨rfl, hfails⟩ := Freestanding.failsBehind_of_failed h
      exact ⟨_, [], ⟨hfails, rfl, rfl⟩, (List.append_nil _).symm⟩

end EntryPoint

theorem Outcome.result_of_failed {o : Outcome} {cause : Cause} (h : o.ending = .failed cause)
    (r : Request) (buffer : Bytes) :
    o.result r buffer =
      .returned { value := -1, errno := (Errno.ofCause cause).getD r.errno, buffer,
                  cells := o.stores.foldl Store.apply r.cells } := by
  simp [result, h]

/-- A finished write returns its length, so that a result of -1 is that of a failure. -/
theorem Outcome.failed_of_neg {o : Outcome} {r : Request} {buffer : Bytes} {reply : Reply}
    (h : o.result r buffer = .returned reply) (hvalue : reply.value = -1) :
    ∃ cause, o.ending = .failed cause := by
  unfold result at h
  cases hending : o.ending with
  | failed cause => exact ⟨cause, rfl⟩
  | done =>
    simp only [hending, Result.returned.injEq] at h
    rw [← h] at hvalue
    simp at hvalue
  | aborted | undefined => simp [hending] at h

namespace Site

/-- **Failing writes.** If a job fails at one site, though not since an `int` cannot count all of
the text, then it fails at one part of its format. There is one text then, what the parts before
that one write and what is left of the part itself, such that at every site the call returns -1,
sets the same error number, stores the same counts, and leaves the text in the buffer, cut to the
room there is. The job alone fixes the text, the counts and the error number. -/
theorem failing_call_cuts_one_front (engine : Engine) (entry : EntryPoint) (fmt : Bytes)
    (args : List Argument) (errno : Int)
    (h : ∃ (c : Site) (reply : Reply), c.call engine entry fmt args errno = .returned reply ∧
      reply.value = -1)
    (hcount : ¬ entry.Overflows engine fmt args errno) :
    ∃ (front piece : Bytes) (stores : List Store) (number : Int),
      entry.FailsBehind engine fmt args errno front piece stores number ∧
      (∀ front' piece' stores' number',
        entry.FailsBehind engine fmt args errno front' piece' stores' number' →
          front' = front ∧ piece' = piece ∧ stores' = stores ∧ number' = number) ∧
      ∀ c : Site, ∃ new : Bytes,
        c.call engine entry fmt args errno =
          .returned { value := -1, errno := number, buffer := new,
                      cells := stores.foldl Store.apply c.cells } ∧
        new.HoldsCut c.buffer c.start c.capacity (front ++ piece) := by
  obtain ⟨c, reply, hcall, hvalue⟩ := h
  rw [call_eq] at hcall
  obtain ⟨cause, hfailed⟩ := Outcome.failed_of_neg hcall hvalue
  obtain ⟨front, piece, hbehind, hbytes⟩ := EntryPoint.exists_failsBehind hfailed hcount
  let o := entry.outcome engine fmt args errno
  refine ⟨front, piece, _, _, hbehind, fun _ _ _ _ H => H.unique hbehind, fun c =>
    ⟨Buffer.store c.buffer c.start c.capacity o.text, ?_, ?_⟩⟩
  · rw [call_eq, Outcome.result_of_failed hfailed]
    rfl
  · rw [← hbytes]
    exact Buffer.store_holdsCut c.start_add_capacity_le _

/-- A wide character that has no byte, behind a number, a count and a literal text
of which one byte fits. -/
theorem failing_call_cuts_one_front_character :
    ∃ (front piece : Bytes) (stores : List Store) (number : Int),
      EntryPoint.FailsBehind .engine .hosted ("%d%n|%lc".toList.map Char.toUInt8)
        [.word 42, .cell 0, .word 233] 0 front piece stores number ∧
      (∀ front' piece' stores' number',
        EntryPoint.FailsBehind .engine .hosted ("%d%n|%lc".toList.map Char.toUInt8)
          [.word 42, .cell 0, .word 233] 0 front' piece' stores' number' →
            front' = front ∧ piece' = piece ∧ stores' = stores ∧ number' = number) ∧
      ∀ c : Site, ∃ new : Bytes,
        c.call .hosted .engine ("%d%n|%lc".toList.map Char.toUInt8)
            [.word 42, .cell 0, .word 233] 0 =
          .returned { value := -1, errno := number, buffer := new,
                      cells := stores.foldl Store.apply c.cells } ∧
        new.HoldsCut c.buffer c.start c.capacity (front ++ piece) :=
  failing_call_cuts_one_front .hosted .engine _ _ _
    ⟨whole [0xa5, 0xa5] [[0xa5, 0xa5, 0xa5, 0xa5]],
      { value := -1, errno := 84, buffer := [52, 0], cells := [[2, 0, 0, 0]] },
      by decide +kernel, rfl⟩
    (by decide +kernel)

/-- A wide text of one block and a character that has no byte, behind a literal text. The block is
in the buffer, which therefore does not hold what the parts before the failing one write. -/
theorem failing_wide_text_leaves_block :
    ¬ ∃ (before : List (Item Hosted.Spec)) (part : Item Hosted.Spec) (cause : Cause) (front : Bytes)
        (stores : List Store) (number : Int),
      FailsAt (Hosted.run 0 · .strict (.ofList [.wideText (List.replicate 256 97 ++ [233])]) 0)
        (Template.parse Hosted.Spec.scan ("x%ls".toList.map Char.toUInt8)) before part cause front
        stores ∧
      ∀ c : Site, ∃ new : Bytes,
        c.call .hosted .engine ("x%ls".toList.map Char.toUInt8)
            [.wideText (List.replicate 256 97 ++ [233])] 0 =
          .returned { value := -1, errno := number, buffer := new,
                      cells := stores.foldl Store.apply c.cells } ∧
        new.HoldsCut c.buffer c.start c.capacity front := by
  rintro ⟨before, part, cause, front, stores, number,
    ⟨⟨later, hparts⟩, hdone, hfront, -, hfails⟩, hcalls⟩
  obtain ⟨new, hcall, hcut⟩ := hcalls (whole (List.replicate 8 0xa5) [])
  have hreply :
      (whole (List.replicate 8 0xa5) []).call .hosted .engine ("x%ls".toList.map Char.toUInt8)
      [.wideText (List.replicate 256 97 ++ [233])] 0 =
        .returned { value := -1, errno := 84,
                    buffer := [120, 97, 97, 97, 97, 97, 97, 0], cells := [] } := by
    decide +kernel
  have hparse : Template.parse Hosted.Spec.scan ("x%ls".toList.map Char.toUInt8) =
      [.literal [120], .directive ⟨.next, {}, none, none, .long, []⟩ 115, .literal []] := by
    decide +kernel
  rw [hparse] at hparts
  -- the write fails at the directive, and the literal text before it has one byte
  have hlength : front.length = 1 := by
    match before, hparts with
    | [], hparts =>
      cases hparts
      have hliteral : (Hosted.run 0 [.literal [120]] .strict
          (.ofList [.wideText (List.replicate 256 97 ++ [233])]) 0).ending =
            .done := by decide +kernel
      cases hliteral.symm.trans hfails
    | [_], hparts =>
      cases hparts
      rw [← hfront]
      decide +kernel
    | [_, _], hparts =>
      cases hparts
      exact absurd hdone (by decide +kernel)
    | _ :: _ :: _ :: before, hparts => simp at hparts
  simp only [hreply, Result.returned.injEq, Reply.mk.injEq] at hcall
  obtain ⟨-, -, rfl, -⟩ := hcall
  have hzero := hcut.zero (by decide)
  rw [hlength] at hzero
  exact absurd hzero (by decide)

end Site

end FormattedOutput
