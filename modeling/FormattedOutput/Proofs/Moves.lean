import FormattedOutput.Freestanding.Format
import FormattedOutput.Hosted.Format
import FormattedOutput.Proofs.Supply

/-! Formatted writes part by part. In both format languages a part of a format either lets the write
go on or ends it (`Move`), and a run is such moves one after the other (`Hosted.run_eq`,
`Freestanding.run_eq`). `Passes` is a stretch of parts that a write gets through: what comes behind
it does not matter to it (`Passes.runMoves_append`), and a write that does not get through its whole
format ends at one part of it (`exists_halt`). -/

namespace FormattedOutput

theorem Ending.failed_ne_done (cause : Cause) : failed cause ≠ done := nofun

theorem Ending.aborted_ne_done : aborted ≠ done := nofun

theorem Ending.undefined_ne_done : undefined ≠ done := nofun

/-- What one part of a format comes to in a state of the write. -/
inductive Move (St : Type) where
  /-- A text is offered, counts are stored, and the write goes on. -/
  | on (text : Rope UInt8) (stores : List Store) (next : St)
  /-- A text is offered, and the write ends before it is done. -/
  | halt (text : Rope UInt8) (ending : Ending) (early : ending ≠ .done)

/-- A write that offers a text and stores some counts first. -/
def Outcome.after (text : Rope UInt8) (stores : List Store) (o : Outcome) : Outcome :=
  { o with text := text ++ o.text, stores := stores ++ o.stores }

section Moves

variable {ι St : Type}

def Move.outcome (later : St → Outcome) : Move St → Outcome
  | on text stores next => (later next).after text stores
  | halt text ending _ => ⟨text, [], ending⟩

/-- Carry out some parts one after the other. -/
def runMoves (move : ι → St → Move St) : List ι → St → Outcome
  | [], _ => .finish .done
  | part :: parts, s => (move part s).outcome (runMoves move parts)

/-- Parts that a write gets through, with the state before them, what is offered and stored,
and the state behind them. -/
inductive Passes (move : ι → St → Move St) :
    List ι → St → Rope UInt8 → List Store → St → Prop where
  | nil (s : St) : Passes move [] s ⟨[]⟩ [] s
  | cons {part : ι} {parts : List ι} {s mid s' : St} {text later : Rope UInt8}
      {stores laterStores : List Store} (hmove : move part s = .on text stores mid)
      (hlater : Passes move parts mid later laterStores s') :
      Passes move (part :: parts) s (text ++ later) (stores ++ laterStores) s'

variable {move : ι → St → Move St} {parts front later : List ι} {s mid s' : St}
  {text laterText : Rope UInt8} {stores laterStores : List Store}

namespace Passes

theorem append (H : Passes move front s text stores mid)
    (Hlater : Passes move later mid laterText laterStores s') :
    Passes move (front ++ later) s (text ++ laterText) (stores ++ laterStores) s' := by
  induction H with
  | nil => exact Hlater
  | cons hmove _ ih =>
    rw [Rope.append_assoc, List.append_assoc]
    exact .cons hmove (ih Hlater)

theorem exists_of_cons {part : ι} (H : Passes move (part :: parts) s text stores s') :
    ∃ mid partText partStores laterText laterStores, move part s = .on partText partStores mid ∧
      Passes move parts mid laterText laterStores s' ∧
      text = partText ++ laterText ∧ stores = partStores ++ laterStores := by
  cases H with
  | cons hmove H => exact ⟨_, _, _, _, _, hmove, H, rfl, rfl⟩

theorem exists_of_append (H : Passes move (front ++ later) s text stores s') :
    ∃ mid frontText frontStores laterText laterStores,
      Passes move front s frontText frontStores mid ∧
      Passes move later mid laterText laterStores s' ∧
      text = frontText ++ laterText ∧ stores = frontStores ++ laterStores := by
  induction front generalizing s text stores with
  | nil => exact ⟨s, _, _, text, stores, .nil s, H, rfl, rfl⟩
  | cons part front ih =>
    cases H with
    | cons hmove H =>
      obtain ⟨mid, t, ss, t', ss', hfront, hlater, rfl, rfl⟩ := ih H
      refine ⟨mid, _, _, t', ss', .cons hmove hfront, hlater, ?_, ?_⟩
      · rw [Rope.append_assoc]
      · rw [List.append_assoc]

/-- The parts and the state before them fix everything else. -/
theorem unique {s'' : St} (H : Passes move parts s text stores s')
    (H' : Passes move parts s laterText laterStores s'') :
    text = laterText ∧ stores = laterStores ∧ s' = s'' := by
  induction H generalizing laterText laterStores with
  | nil =>
    cases H'
    exact ⟨rfl, rfl, rfl⟩
  | cons hmove _ ih =>
    obtain ⟨mid, _, _, _, _, hmove', Hlater, rfl, rfl⟩ := exists_of_cons H'
    cases hmove.symm.trans hmove'
    obtain ⟨rfl, rfl, rfl⟩ := ih Hlater
    exact ⟨rfl, rfl, rfl⟩

theorem runMoves_append (H : Passes move front s text stores s') (later : List ι) :
    runMoves move (front ++ later) s = (runMoves move later s').after text stores := by
  induction H with
  | nil => rfl
  | cons hmove _ ih =>
    simp only [List.cons_append, runMoves, hmove, Move.outcome, ih, Outcome.after,
      Rope.append_assoc, List.append_assoc]

theorem runMoves_eq (H : Passes move parts s text stores s') :
    runMoves move parts s = ⟨text, stores, .done⟩ := by
  have h := H.runMoves_append []
  rw [List.append_nil] at h
  rw [h, runMoves, Outcome.after, Outcome.finish, Rope.append_nil, List.append_nil]

/-- What each move keeps when the states are changed, a whole stretch of moves keeps. A condition
may have to hold of the state behind a move; it has to hold of the one before it then. -/
theorem map {f : St → St} {p : St → Prop}
    (hmove : ∀ part ∈ parts, ∀ s text stores s', move part s = .on text stores s' → p s' →
      p s ∧ move part (f s) = .on text stores (f s'))
    (H : Passes move parts s text stores s') (hp : p s') :
    p s ∧ Passes move parts (f s) text stores (f s') := by
  induction H with
  | nil s => exact ⟨hp, .nil (f s)⟩
  | cons hpart _ ih =>
    obtain ⟨hmid, Hlater⟩ := ih (fun part hmem => hmove part (List.mem_cons_of_mem _ hmem)) hp
    obtain ⟨hs, hpart'⟩ := hmove _ List.mem_cons_self _ _ _ _ hpart hmid
    exact ⟨hs, .cons hpart' Hlater⟩

/-- What each part takes away from a measure of the states, a whole stretch of
parts takes away in sum. -/
theorem measure (size : ι → Nat) (left : St → Nat)
    (hmove : ∀ part ∈ parts, ∀ s text stores s', move part s = .on text stores s' →
      stores = [] ∧ left s = left s' + size part) (H : Passes move parts s text stores s') :
    stores = [] ∧ left s = left s' + parts.foldr (fun part n => size part + n) 0 := by
  induction H with
  | nil => exact ⟨rfl, rfl⟩
  | cons hpart _ ih =>
    obtain ⟨rfl, hleft⟩ := hmove _ List.mem_cons_self _ _ _ _ hpart
    obtain ⟨rfl, hlater⟩ := ih fun part hmem => hmove part (List.mem_cons_of_mem _ hmem)
    refine ⟨rfl, ?_⟩
    rw [hleft, hlater, List.foldr_cons]
    omega

end Passes

/-- A write is done if it gets through its whole format, and ends at one part of it otherwise. -/
theorem passes_or_halts (move : ι → St → Move St) (parts : List ι) (s : St) :
    (∃ text stores s', Passes move parts s text stores s') ∨
      ∃ front part later text stores mid last ending early,
        parts = front ++ part :: later ∧ Passes move front s text stores mid ∧
        move part mid = .halt last ending early := by
  induction parts generalizing s with
  | nil => exact .inl ⟨_, _, s, .nil s⟩
  | cons part parts ih =>
    cases hmove : move part s with
    | halt last ending early =>
      exact .inr ⟨[], part, parts, _, _, s, last, ending, early, rfl, .nil s, hmove⟩
    | on text stores next =>
      rcases ih next with
        ⟨_, _, s', H⟩ | ⟨front, part', later, _, _, mid, last, ending, early, rfl, H, hhalt⟩
      · exact .inl ⟨_, _, s', .cons hmove H⟩
      · exact .inr
          ⟨part :: front, part', later, _, _, mid, last, ending, early, rfl, .cons hmove H, hhalt⟩

theorem runMoves_of_halt {part : ι} {last : Rope UInt8} {ending : Ending} {early : ending ≠ .done}
    (H : Passes move front s text stores mid) (hhalt : move part mid = .halt last ending early)
    (later : List ι) :
    runMoves move (front ++ part :: later) s = ⟨text ++ last, stores, ending⟩ := by
  rw [H.runMoves_append, runMoves, hhalt]
  simp [Move.outcome, Outcome.after]

theorem passes_of_done (h : (runMoves move parts s).ending = .done) :
    ∃ s', Passes move parts s (runMoves move parts s).text (runMoves move parts s).stores s' := by
  rcases passes_or_halts move parts s with ⟨text, stores, s', H⟩ |
    ⟨front, part, later, text, stores, mid, last, ending, early, rfl, H, hhalt⟩
  · rw [H.runMoves_eq]
    exact ⟨s', H⟩
  · rw [runMoves_of_halt H hhalt] at h
    exact absurd h early

theorem exists_halt (h : (runMoves move parts s).ending ≠ .done) :
    ∃ front part later text stores mid last ending early,
      parts = front ++ part :: later ∧ Passes move front s text stores mid ∧
      move part mid = .halt last ending early := by
  rcases passes_or_halts move parts s with ⟨text, stores, s', H⟩ | hhalts
  · rw [H.runMoves_eq] at h
    exact absurd rfl h
  · exact hhalts

end Moves

/-! ## The host's language -/

namespace Hosted

/-- Where a write stands between two parts of its format. -/
structure Progress where
  manner : Manner
  supply : Supply
  written : Nat

/-- Offer a text, and go on if an `int` can still count all that was written. -/
def Progress.offer (p : Progress) (text : Rope UInt8) : Move Progress :=
  if maxInt < p.written + text.length then .halt text (.failed .oversized) (Ending.failed_ne_done _)
  else .on text [] { p with written := p.written + text.length }

def Effect.move (p : Progress) : Effect → Move Progress
  | .write text => p.offer text
  | .store cell size => .on ⟨[]⟩ [{ cell, size, count := p.written }] p
  | .fail text cause => .halt (.ofList text) (.failed cause) (Ending.failed_ne_done _)

def directiveMove (errno : Int) (spec : Spec) (letter : Option UInt8) (p : Progress) :
    Move Progress :=
  match p.manner.next spec letter with
  | .error cause => .halt ⟨[]⟩ (.failed cause) (Ending.failed_ne_done _)
  | .ok manner =>
    match perform manner errno spec letter p.supply with
    | some (effect, supply) => effect.move { manner, supply, written := p.written }
    | none => .halt ⟨[]⟩ .undefined Ending.undefined_ne_done

def move (errno : Int) : Item Spec → Progress → Move Progress
  | .literal text, p => p.offer (.ofList text)
  | .directive spec letter, p => directiveMove errno spec (some letter) p
  | .unfinished spec, p => directiveMove errno spec none p

theorem Progress.outcome_offer (p : Progress) (text : Rope UInt8) (later : Progress → Outcome) :
    (p.offer text).outcome later =
      proceed p.written text fun written => later { p with written } := by
  by_cases h : maxInt < p.written + text.length
  · simp only [Progress.offer, proceed, if_pos h, Move.outcome, Outcome.finish, Outcome.offer,
      Rope.append_nil]
  · simp only [Progress.offer, proceed, if_neg h]
    rfl

theorem Effect.outcome_move (effect : Effect) (p : Progress) (later : Progress → Outcome) :
    (effect.move p).outcome later =
      effect.andThen p.written fun written => later { p with written } := by
  cases effect with
  | write text => exact p.outcome_offer text later
  | store cell size => rfl
  | fail text cause =>
    simp only [Effect.move, Effect.andThen, Move.outcome, Outcome.finish, Outcome.offer,
      Rope.append_nil]

theorem outcome_directiveMove (errno : Int) (spec : Spec) (letter : Option UInt8) (p : Progress)
    (later : Progress → Outcome) :
    (directiveMove errno spec letter p).outcome later =
      step errno p.manner spec letter p.supply p.written
        fun manner supply written => later { manner, supply, written } := by
  unfold directiveMove step
  cases p.manner.next spec letter with
  | error cause => rfl
  | ok manner =>
    cases hperform : perform manner errno spec letter p.supply with
    | none => simp only [hperform, Move.outcome, Outcome.finish]
    | some performed =>
      obtain ⟨effect, supply⟩ := performed
      simp only [hperform]
      exact effect.outcome_move _ later

theorem run_eq (errno : Int) (items : List (Item Spec)) (p : Progress) :
    run errno items p.manner p.supply p.written = runMoves (move errno) items p := by
  induction items generalizing p with
  | nil => rfl
  | cons item items ih =>
    have hlater : (fun manner supply written => run errno items manner supply written) =
        fun manner supply written => runMoves (move errno) items { manner, supply, written } :=
      funext fun manner => funext fun supply => funext fun written => ih ⟨manner, supply, written⟩
    cases item with
    | literal text =>
      rw [run, runMoves, move, Progress.outcome_offer]
      exact congrArg (proceed p.written _) (funext fun written => ih { p with written })
    | directive spec letter =>
      rw [run, runMoves, move, outcome_directiveMove]
      exact congrArg (step errno p.manner spec (some letter) p.supply p.written) hlater
    | unfinished spec =>
      rw [run, runMoves, move, outcome_directiveMove]
      exact congrArg (step errno p.manner spec none p.supply p.written) hlater

/-! ### What a move keeps -/

section Steps

variable {errno : Int} {part : Item Spec} {parts : List (Item Spec)} {p p' : Progress}
  {text offered : Rope UInt8} {stores : List Store}

theorem Progress.offer_eq_on_iff :
    p.offer text = .on offered stores p' ↔
      p.written + text.length ≤ maxInt ∧ offered = text ∧ stores = [] ∧
        p' = { p with written := p.written + text.length } := by
  unfold offer
  split
  · next h => exact ⟨nofun, fun h' => absurd h'.1 (Nat.not_le.2 h)⟩
  · next h =>
    simp only [Move.on.injEq, Nat.le_of_not_lt h, true_and]
    exact ⟨fun ⟨h₁, h₂, h₃⟩ => ⟨h₁.symm, h₂.symm, h₃.symm⟩,
      fun ⟨h₁, h₂, h₃⟩ => ⟨h₁.symm, h₂.symm, h₃.symm⟩⟩

theorem directiveMove_eq_on {spec : Spec} {letter : Option UInt8}
    (h : directiveMove errno spec letter p = .on text stores p') :
    ∃ manner effect supply, p.manner.next spec letter = .ok manner ∧
      perform manner errno spec letter p.supply = some (effect, supply) ∧
      effect.move { manner, supply, written := p.written } = .on text stores p' := by
  unfold directiveMove at h
  split at h
  · cases h
  · next manner hnext =>
    split at h
    · next effect supply hperform => exact ⟨manner, effect, supply, hnext, hperform, h⟩
    · cases h

/-- A write counts what it offers, as far as an `int` can count, and takes arguments in order. -/
structure Progress.Advances (p : Progress) (text : Rope UInt8) (p' : Progress) : Prop where
  written : p'.written = p.written + text.length
  counted : p.written ≤ maxInt → p'.written ≤ maxInt
  supply : p.supply.Leaves p'.supply

theorem advances_of_directiveMove {spec : Spec} {letter : Option UInt8}
    (h : directiveMove errno spec letter p = .on text stores p') : p.Advances text p' := by
  obtain ⟨manner, effect, supply, -, hperform, hmove⟩ := directiveMove_eq_on h
  have hsupply := leaves_of_perform hperform
  cases effect with
  | write =>
    obtain ⟨hcount, rfl, -, rfl⟩ := Progress.offer_eq_on_iff.1 hmove
    exact ⟨rfl, fun _ => hcount, hsupply⟩
  | store =>
    cases hmove
    exact ⟨rfl, id, hsupply⟩
  | fail => cases hmove

theorem advances_of_move (h : move errno part p = .on text stores p') : p.Advances text p' := by
  cases part with
  | literal =>
    obtain ⟨hcount, rfl, -, rfl⟩ := Progress.offer_eq_on_iff.1 h
    exact ⟨rfl, fun _ => hcount, .refl _⟩
  | directive | unfinished => exact advances_of_directiveMove h

theorem advances_of_passes (H : Passes (move errno) parts p text stores p') :
    p.Advances text p' := by
  induction H with
  | nil s => exact ⟨rfl, id, .refl _⟩
  | cons hmove _ ih =>
    have hstep := advances_of_move hmove
    refine ⟨?_, fun hcount => ih.counted (hstep.counted hcount), hstep.supply.trans ih.supply⟩
    rw [ih.written, hstep.written, Rope.length_append, Nat.add_assoc]

end Steps

/-- Where a write starts. -/
def Progress.start (args : List Argument) : Progress where
  manner := .strict
  supply := .ofList args
  written := 0

theorem format_eq (fmt : Bytes) (args : List Argument) (errno : Int) :
    format fmt args errno = runMoves (move errno) (Template.parse Spec.scan fmt) (.start args) :=
  run_eq errno _ (.start args)

end Hosted

/-! ## The freestanding language -/

namespace Freestanding

def Attempt.move (s : Supply) : Attempt → Move Supply
  | .write text => .on (Utf8.encodeRope text) [] s
  | .refuse => .halt ⟨[]⟩ (.failed .refused) (Ending.failed_ne_done _)
  | .abort => .halt ⟨[]⟩ .aborted Ending.aborted_ne_done

def move : Item Spec → Supply → Move Supply
  | .literal text, s => (literal text).move s
  | .unfinished _, _ => .halt ⟨[]⟩ (.failed .refused) (Ending.failed_ne_done _)
  | .directive spec letter, s =>
    match perform spec letter s with
    | some (attempt, s) => attempt.move s
    | none => .halt ⟨[]⟩ .undefined Ending.undefined_ne_done

theorem Attempt.outcome_move (a : Attempt) (s : Supply) (later : Supply → Outcome) :
    (a.move s).outcome later = a.andThen (later s) := by
  cases a <;> rfl

theorem run_eq (items : List (Item Spec)) (s : Supply) : run items s = runMoves move items s := by
  induction items generalizing s with
  | nil => rfl
  | cons item items ih =>
    cases item with
    | literal text => rw [run, runMoves, move, Attempt.outcome_move, ih]
    | unfinished spec => rfl
    | directive spec letter =>
      rw [run, runMoves, move]
      cases perform spec letter s with
      | none => rfl
      | some performed =>
        obtain ⟨attempt, s'⟩ := performed
        simp only [Attempt.outcome_move, ih]

theorem format_eq (fmt : Bytes) (args : List Argument) :
    format fmt args = runMoves move (Template.parse Spec.scan fmt) (.ofList args) :=
  run_eq _ _

end Freestanding

end FormattedOutput
