import FormattedOutput.Freestanding.Conversion
import FormattedOutput.Hosted.Conversion

/-! What directives do with the arguments of a write. They leave a rear part of those that were
not yet taken (`Supply.Leaves`). A directive that names no argument by its position takes a
fixed number of them, and goes by these alone (`Supply.Takes`): others to name, and others
behind, change nothing. -/

namespace FormattedOutput

namespace Supply

variable {s s' s'' : Supply} {a : Argument} {α β : Type}

/-! ## What is left -/

/-- Some arguments may have been taken in order. -/
structure Leaves (s s' : Supply) : Prop where
  all_eq : s'.all = s.all
  rest : s'.rest <:+ s.rest

theorem Leaves.refl (s : Supply) : s.Leaves s := ⟨rfl, List.suffix_rfl⟩

theorem Leaves.trans (h : s.Leaves s') (h' : s'.Leaves s'') : s.Leaves s'' :=
  ⟨h'.all_eq.trans h.all_eq, h'.rest.trans h.rest⟩

theorem leaves_of_take {source : Source} (h : s.take source = some (a, s')) :
    s.Leaves s' := by
  cases source with
  | next =>
    cases hrest : s.rest with
    | nil => simp [take, hrest] at h
    | cons b rest =>
      simp only [take, hrest, Option.some.injEq, Prod.mk.injEq] at h
      obtain ⟨rfl, rfl⟩ := h
      exact ⟨rfl, hrest ▸ List.suffix_cons b rest⟩
  | nth index =>
    simp only [take, Option.map_eq_some_iff, Prod.mk.injEq] at h
    obtain ⟨_, _, _, rfl⟩ := h
    exact .refl s

theorem leaves_of_amount? {amount : Option Amount} {n : Option Int}
    (h : s.amount? amount = some (n, s')) : s.Leaves s' := by
  cases amount with
  | none =>
    simp only [amount?, Option.some.injEq, Prod.mk.injEq] at h
    exact h.2 ▸ .refl s
  | some amount =>
    simp only [amount?, Option.map_eq_some_iff, Prod.mk.injEq] at h
    obtain ⟨⟨m, t⟩, hamount, -, rfl⟩ := h
    cases amount with
    | given k =>
      simp only [Supply.amount, Option.some.injEq, Prod.mk.injEq] at hamount
      exact hamount.2 ▸ .refl s
    | argument source =>
      simp only [Supply.amount, Option.map_eq_some_iff, Prod.mk.injEq] at hamount
      obtain ⟨⟨w, t'⟩, hword, -, rfl⟩ := hamount
      unfold takeWord at hword
      split at hword
      · next htake =>
        simp only [Option.some.injEq, Prod.mk.injEq] at hword
        exact hword.2 ▸ leaves_of_take htake
      · cases hword

/-! ## Arguments in order -/

/-- The arguments with others to name, and with more of them behind. -/
def extend (all extra : List Argument) (s : Supply) : Supply := ⟨all, s.rest ++ extra⟩

/-- Reading takes `n` arguments in order, and goes by these alone. -/
structure Takes (read : Supply → Option (α × Supply)) (n : Nat) : Prop where
  length_eq : ∀ {s x s'}, read s = some (x, s') → s.rest.length = s'.rest.length + n
  extend_eq : ∀ {s x s'}, read s = some (x, s') → ∀ all extra,
    read (s.extend all extra) = some (x, s'.extend all extra)

theorem takes_bind (o : Option α) : Takes (fun s => o.bind fun x => some (x, s)) 0 := by
  refine ⟨fun h => ?_, fun h all extra => ?_⟩
  all_goals
    simp only [Option.bind_eq_some_iff, Option.some.injEq, Prod.mk.injEq] at h
    obtain ⟨x, hx, rfl, rfl⟩ := h
  · rfl
  · rw [hx, Option.bind_some]

theorem takes_pure (x : α) : Takes (fun s => some (x, s)) 0 := takes_bind (some x)

theorem Takes.bind {f : Supply → Option (α × Supply)} {g : α × Supply → Option (β × Supply)}
    {n m : Nat} (hf : Takes f n) (hg : ∀ x, Takes (fun s => g (x, s)) m) :
    Takes (fun s => (f s).bind g) (n + m) := by
  refine ⟨fun {s y s'} h => ?_, fun {s y s'} h all extra => ?_⟩
  all_goals obtain ⟨⟨x, t⟩, hx, hy⟩ := Option.bind_eq_some_iff.1 h
  · rw [hf.length_eq hx, (hg x).length_eq hy, Nat.add_assoc, Nat.add_comm m]
  · rw [hf.extend_eq hx all extra, Option.bind_some]
    exact (hg x).extend_eq hy all extra

theorem Takes.map {f : Supply → Option (α × Supply)} {n : Nat} (hf : Takes f n) (g : α → β) :
    Takes (fun s => (f s).map fun r => (g r.1, r.2)) n := by
  simp only [Option.map_eq_bind]
  exact hf.bind (m := 0) fun x => takes_pure (g x)

theorem takes_take : Takes (fun s => s.take .next) 1 := by
  refine ⟨fun {s x s'} h => ?_, fun {s x s'} h all extra => ?_⟩
  all_goals
    cases hrest : s.rest with
    | nil => simp [take, hrest] at h
    | cons b rest =>
      simp only [take, hrest, Option.some.injEq, Prod.mk.injEq] at h
      obtain ⟨rfl, rfl⟩ := h
      simp [take, extend, hrest]

def word? : Argument → Option UInt64
  | .word w => some w
  | _ => none

theorem takeWord_eq (s : Supply) (source : Source) : s.takeWord source =
    (s.take source).bind fun r => (word? r.1).bind fun w => some (w, r.2) := by
  unfold takeWord
  cases s.take source with
  | none => rfl
  | some r =>
    obtain ⟨a, t⟩ := r
    cases a <;> rfl

theorem takes_takeWord : Takes (fun s => s.takeWord .next) 1 := by
  simp only [takeWord_eq]
  exact takes_take.bind (m := 0) fun a => takes_bind (word? a)

end Supply

namespace Amount

/-- The number of arguments that an amount takes. -/
def arity : Amount → Nat
  | given _ => 0
  | argument _ => 1

/-- An amount that names no argument by its position. -/
def InOrder : Amount → Prop
  | given _ | argument .next => True
  | argument (.nth _) => False

theorem takes {amount : Amount} (h : amount.InOrder) :
    Supply.Takes (fun s => s.amount amount) amount.arity := by
  match amount, h with
  | given n, _ => exact Supply.takes_pure (n : Int)
  | argument .next, _ => exact Supply.takes_takeWord.map Length.int.signed

theorem takes? {amount : Option Amount} (h : ∀ a ∈ amount, a.InOrder) :
    Supply.Takes (fun s => s.amount? amount) (amount.elim 0 arity) := by
  cases amount with
  | none => exact Supply.takes_pure none
  | some amount => exact (takes (h amount rfl)).map some

end Amount

/-! ## The host's language -/

namespace Hosted

/-- The number of arguments that a conversion takes. -/
def Conversion.arity : Conversion → Nat
  | percentSign | errorText | unknown => 0
  | signed | unsigned _ | floating .. | character _ | text _ | address | count => 1

/-- The number of arguments that a directive takes. -/
def Spec.arity (spec : Spec) (letter : Option UInt8) : Nat :=
  spec.width.elim 0 Amount.arity + spec.precision.elim 0 Amount.arity +
    letter.elim 0 fun letter => (Conversion.ofLetter letter).arity

/-- A directive that names no argument by its position. -/
structure Spec.InOrder (spec : Spec) : Prop where
  source : spec.source = .next
  width : ∀ a ∈ spec.width, a.InOrder
  precision : ∀ a ∈ spec.precision, a.InOrder

theorem Spec.leaves_of_settle {spec : Spec} {manner : Manner} {s s' : Supply} {l : Layout}
    (h : spec.settle manner s = some (l, s')) : s.Leaves s' := by
  obtain ⟨⟨width, t⟩, hwidth, h⟩ := Option.bind_eq_some_iff.1 h
  obtain ⟨⟨precision, t'⟩, hprecision, h⟩ := Option.bind_eq_some_iff.1 h
  simp only [Option.pure_def, Option.some.injEq, Prod.mk.injEq] at h
  exact h.2 ▸ (Supply.leaves_of_amount? hwidth).trans (Supply.leaves_of_amount? hprecision)

theorem Spec.takes_settle {spec : Spec} (h : spec.InOrder) (manner : Manner) :
    Supply.Takes (spec.settle manner)
      (spec.width.elim 0 Amount.arity + spec.precision.elim 0 Amount.arity) := by
  refine (Amount.takes? h.width).bind fun width => ?_
  refine (Amount.takes? h.precision).bind (m := 0) fun precision => ?_
  exact Supply.takes_pure _

theorem Conversion.takes_perform {spec : Spec} (h : spec.source = .next) (c : Conversion)
    (errno : Int) (letter : UInt8) (l : Layout) :
    Supply.Takes (c.perform errno spec letter l) c.arity := by
  cases c with
  | percentSign | errorText | unknown => exact Supply.takes_pure _
  | signed | unsigned | floating | character | text | address | count =>
    unfold perform
    rw [h]
    refine Supply.takes_take.bind (m := 0) fun arg => ?_
    exact Supply.takes_bind _

theorem Conversion.leaves_of_perform {c : Conversion} {errno : Int} {spec : Spec} {letter : UInt8}
    {l : Layout} {s s' : Supply} {effect : Effect}
    (h : c.perform errno spec letter l s = some (effect, s')) : s.Leaves s' := by
  cases c with
  | percentSign | errorText | unknown =>
    simp only [perform, Option.some.injEq, Prod.mk.injEq] at h
    exact h.2 ▸ .refl s
  | signed | unsigned | floating | character | text | address | count =>
    obtain ⟨⟨arg, t⟩, htake, h⟩ := Option.bind_eq_some_iff.1 h
    obtain ⟨_, _, h⟩ := Option.bind_eq_some_iff.1 h
    simp only [Option.pure_def, Option.some.injEq, Prod.mk.injEq] at h
    exact h.2 ▸ Supply.leaves_of_take htake

theorem leaves_of_perform {manner : Manner} {errno : Int} {spec : Spec} {letter : Option UInt8}
    {s s' : Supply} {effect : Effect} (h : perform manner errno spec letter s = some (effect, s')) :
    s.Leaves s' := by
  obtain ⟨⟨l, t⟩, hsettle, h⟩ := Option.bind_eq_some_iff.1 h
  refine (Spec.leaves_of_settle hsettle).trans ?_
  cases letter with
  | some letter => exact Conversion.leaves_of_perform h
  | none =>
    simp only [Option.some.injEq, Prod.mk.injEq] at h
    exact h.2 ▸ .refl t

/-- What a conversion can do with its argument: it writes, stores a count, or fails at a wide
character or in a wide text. -/
theorem Conversion.apply_cases {c : Conversion} {l : Layout} {arg : Argument} {effect : Effect}
    (h : c.apply l arg = some effect) :
    (∃ text, effect = .write text) ∨
      (c = .count ∧ ∃ cell, effect = .store cell l.length.bytes) ∨
      ((∀ wide, c ≠ .text wide) ∧ effect = .fail [] .unencodable) ∨
      ∃ wide codes piece, c = .text wide ∧ arg = .wideText codes ∧
        Hosted.wideText l codes = .error piece ∧ effect = .fail piece .unencodable := by
  cases c with
  | percentSign | errorText | unknown => cases arg <;> cases h
  | signed | unsigned | floating | address =>
    cases arg <;> cases h
    all_goals exact .inl ⟨_, rfl⟩
  | count =>
    cases arg <;> cases h
    exact .inr (.inl ⟨rfl, _, rfl⟩)
  | character wide =>
    cases arg <;> try cases h
    next w =>
      simp only [apply] at h
      split at h
      · simp only [Effect.wideCharacter, Option.some.injEq] at h
        split at h <;> cases h
        · exact .inl ⟨_, rfl⟩
        · exact .inr (.inr (.inl ⟨nofun, rfl⟩))
      · cases h
        exact .inl ⟨_, rfl⟩
  | text wide =>
    cases arg <;> try cases h
    case word w | text bs =>
      simp only [apply] at h
      split at h <;> cases h
      exact .inl ⟨_, rfl⟩
    case wideText codes =>
      simp only [apply] at h
      split at h
      · simp only [Effect.wideText, Option.some.injEq] at h
        split at h
        · cases h
          exact .inl ⟨_, rfl⟩
        · next hwide =>
          cases h
          exact .inr (.inr (.inr ⟨wide, codes, _, rfl, rfl, hwide, rfl⟩))
      · cases h

/-- A directive that does not just write takes an argument, to which its conversion is applied. -/
theorem apply_of_perform {manner : Manner} {errno : Int} {spec : Spec} {letter : Option UInt8}
    {s s' : Supply} {effect : Effect} (h : perform manner errno spec letter s = some (effect, s'))
    (hwrite : ∀ text, effect ≠ .write text) :
    ∃ l mid letter' arg, letter = some letter' ∧ spec.settle manner s = some (l, mid) ∧
      mid.take spec.source = some (arg, s') ∧
      (Conversion.ofLetter letter').apply l arg = some effect := by
  obtain ⟨⟨l, mid⟩, hsettle, h⟩ := Option.bind_eq_some_iff.1 h
  cases letter with
  | none =>
    cases h
    exact absurd rfl (hwrite _)
  | some letter =>
    simp only [Conversion.perform] at h
    split at h
    · cases h
      exact absurd rfl (hwrite _)
    · cases h
      exact absurd rfl (hwrite _)
    · cases h
      exact absurd rfl (hwrite _)
    · obtain ⟨⟨arg, rest⟩, htake, h⟩ := Option.bind_eq_some_iff.1 h
      obtain ⟨effect', happly, h⟩ := Option.bind_eq_some_iff.1 h
      simp only [Option.pure_def, Option.some.injEq, Prod.mk.injEq] at h
      obtain ⟨rfl, rfl⟩ := h
      exact ⟨l, mid, letter, arg, rfl, hsettle, htake, happly⟩

theorem takes_perform {spec : Spec} (h : spec.InOrder) (manner : Manner) (errno : Int)
    (letter : Option UInt8) :
    Supply.Takes (perform manner errno spec letter) (spec.arity letter) := by
  refine (spec.takes_settle h manner).bind fun l => ?_
  cases letter with
  | some letter => exact (Conversion.ofLetter letter).takes_perform h.source errno letter l
  | none => exact Supply.takes_pure _

variable {bs rest : Bytes} {marks : List Mark}

theorem scanSource_eq_next {source : Source} (h : scanSource bs = (source, marks, rest))
    (hmarks : .positional ∉ marks) : source = .next := by
  unfold scanSource at h
  split at h
  · cases h
    rfl
  · split at h <;> cases h
    · simp at hmarks
    · rfl

theorem scanStar_eq_next {source : Source} (h : scanStar bs = (source, marks, rest))
    (hmarks : .positional ∉ marks) : source = .next := by
  unfold scanStar at h
  split at h
  · cases h
    rfl
  · exact scanSource_eq_next h hmarks

theorem inOrder_of_scanAmount {amount : Option Amount} (h : scanAmount bs = (amount, marks, rest))
    (hmarks : .positional ∉ marks) : ∀ a ∈ amount, a.InOrder := by
  cases bs with
  | nil =>
    cases h
    exact nofun
  | cons b bs =>
    simp only [scanAmount] at h
    split at h
    · next hstar =>
      rcases hsource : scanStar bs with ⟨source, marks', rest'⟩
      rw [hsource] at h
      cases h
      cases scanStar_eq_next hsource hmarks
      simp [Amount.InOrder]
    · split at h
      · split at h <;> cases h <;> simp [Amount.InOrder]
      · cases h
        exact nofun

theorem inOrder_of_scanPrecision {precision : Option Amount}
    (h : scanPrecision bs = (precision, marks, rest)) (hmarks : .positional ∉ marks) :
    ∀ a ∈ precision, a.InOrder := by
  cases bs with
  | nil =>
    cases h
    exact nofun
  | cons b bs =>
    simp only [scanPrecision] at h
    split at h
    · split at h
      · cases h
        simp [Amount.InOrder]
      · exact inOrder_of_scanAmount h hmarks
    · cases h
      exact nofun

/-- Only a position names an argument. -/
theorem Spec.inOrder_of_scan {spec : Spec} (h : Spec.scan bs = (spec, rest))
    (hmarks : .positional ∉ spec.marks) : spec.InOrder := by
  rcases hsource : scanSource bs with ⟨source, sourceMarks, bs₁⟩
  rcases hflags : Flags.scan flagLetters bs₁ with ⟨flags, bs₂⟩
  rcases hwidth : scanAmount bs₂ with ⟨width, widthMarks, bs₃⟩
  rcases hprecision : scanPrecision bs₃ with ⟨precision, precisionMarks, bs₄⟩
  simp only [Spec.scan, hsource, hflags, hwidth, hprecision, Prod.mk.injEq] at h
  obtain ⟨rfl, -⟩ := h
  simp only [List.mem_append, not_or] at hmarks
  exact ⟨scanSource_eq_next hsource hmarks.1.1, inOrder_of_scanAmount hwidth hmarks.1.2,
    inOrder_of_scanPrecision hprecision hmarks.2⟩

end Hosted

/-! ## The freestanding language -/

namespace Freestanding

/-- The number of arguments that a conversion takes. -/
def Conversion.arity : Conversion → Nat
  | percentSign | refused => 0
  | signed | unsigned .. | floating _ | character | text | address => 1

/-- The number of arguments that a directive takes. -/
def Spec.arity (spec : Spec) (letter : UInt8) : Nat :=
  spec.width.arity + spec.precision.elim 0 Amount.arity + (Conversion.ofLetter letter).arity

structure Spec.InOrder (spec : Spec) : Prop where
  width : spec.width.InOrder
  precision : ∀ a ∈ spec.precision, a.InOrder

theorem Spec.takes_settle {spec : Spec} (h : spec.InOrder) :
    Supply.Takes spec.settle (spec.width.arity + spec.precision.elim 0 Amount.arity) := by
  refine (Amount.takes h.width).bind fun width => ?_
  refine (Amount.takes? h.precision).bind (m := 0) fun precision => ?_
  exact Supply.takes_pure _

theorem takes_perform {spec : Spec} (h : spec.InOrder) (letter : UInt8) :
    Supply.Takes (perform spec letter) (spec.arity letter) := by
  refine (spec.takes_settle h).bind fun l => ?_
  cases Conversion.ofLetter letter with
  | percentSign | refused => exact Supply.takes_pure _
  | signed | unsigned | floating | character | text | address =>
    refine Supply.takes_take.bind (m := 0) fun arg => ?_
    exact Supply.takes_bind _

theorem inOrder_of_scanAmount {bs rest : Bytes} {amount : Amount}
    (h : scanAmount bs = (amount, rest)) :
    amount.InOrder := by
  cases bs with
  | nil =>
    cases h
    trivial
  | cons b bs =>
    simp only [scanAmount] at h
    split at h <;> cases h <;> trivial

theorem inOrder_of_scanPrecision {bs rest : Bytes} {precision : Option Amount}
    (h : scanPrecision bs = (precision, rest)) : ∀ a ∈ precision, a.InOrder := by
  cases bs with
  | nil =>
    cases h
    exact nofun
  | cons b bs =>
    rcases hamount : scanAmount bs with ⟨amount, rest'⟩
    simp only [scanPrecision, hamount] at h
    split at h <;> cases h
    · simpa using inOrder_of_scanAmount hamount
    · exact nofun

/-- No directive of this language names an argument. -/
theorem Spec.inOrder_of_scan {bs rest : Bytes} {spec : Spec} (h : Spec.scan bs = (spec, rest)) :
    spec.InOrder := by
  rcases hflags : Flags.scan flagLetters bs with ⟨flags, bs₁⟩
  rcases hwidth : scanAmount bs₁ with ⟨width, bs₂⟩
  rcases hprecision : scanPrecision bs₂ with ⟨precision, bs₃⟩
  simp only [Spec.scan, hflags, hwidth, hprecision, Prod.mk.injEq] at h
  obtain ⟨rfl, -⟩ := h
  exact ⟨inOrder_of_scanAmount hwidth, inOrder_of_scanPrecision hprecision⟩

end Freestanding

end FormattedOutput
