import FormattedOutput.Proofs.Attempts
import FormattedOutput.Proofs.BoundedWrite
import FormattedOutput.Proofs.Framing

/-! Arguments that match a format. A format asks for arguments of certain kinds, one after the
other: a word for each star, and what each conversion takes. If the arguments start with these
kinds, then no directive finds itself without an argument that it can take (`Supply.Asks`), and a
write is never undefined. -/

namespace FormattedOutput

/-- The kinds of arguments. -/
inductive Kind where
  | word
  | double
  | text
  | wideText
  | cell
  deriving DecidableEq, Repr

def Argument.kind : Argument → Kind
  | word _ => .word
  | double _ => .double
  | text _ => .text
  | wideText _ => .wideText
  | cell _ => .cell

namespace Supply

variable {s s' s'' : Supply} {front back : List Argument}
  {kinds kinds' later : List Kind} {α β : Type}

/-- The arguments that were not yet taken start with some of the given kinds. -/
def Offers (s : Supply) (kinds : List Kind) : Prop := kinds <+: s.rest.map Argument.kind

/-- Some arguments were taken in order. -/
def Gives (s : Supply) (front : List Argument) (s' : Supply) : Prop := s.rest = front ++ s'.rest

theorem Gives.trans (h : s.Gives front s') (h' : s'.Gives back s'') :
    s.Gives (front ++ back) s'' := by
  rw [Gives, h, h', List.append_assoc]

theorem Gives.offers (h : s.Gives front s') (hfront : front.map Argument.kind = kinds)
    (hs : s.Offers (kinds ++ later)) : s'.Offers later := by
  rw [Offers, h, List.map_append, hfront] at hs
  exact (List.prefix_append_right_inj _).1 hs

/-- Reading succeeds if there are arguments of the given kinds, takes these, and gives a value that
they determine as `p` says. -/
def Asks (read : Supply → Option (α × Supply)) (kinds : List Kind)
    (p : List Argument → α → Prop) : Prop :=
  ∀ s later, s.Offers (kinds ++ later) →
    ∃ x s' front, read s = some (x, s') ∧ s.Gives front s' ∧
      front.map Argument.kind = kinds ∧ p front x

variable {p : List Argument → α → Prop} {q : List Argument → β → Prop}

theorem asks_pure {x : α} (hx : p [] x) : Asks (fun s => some (x, s)) [] p :=
  fun s _ _ => ⟨x, s, [], rfl, rfl, rfl, hx⟩

theorem Asks.bind {f : Supply → Option (α × Supply)} {g : α × Supply → Option (β × Supply)}
    (hf : Asks f kinds p)
    (hg : ∀ front x, front.map Argument.kind = kinds → p front x →
      Asks (fun s => g (x, s)) kinds' fun back => q (front ++ back)) :
    Asks (fun s => (f s).bind g) (kinds ++ kinds') q := by
  intro s later h
  rw [List.append_assoc] at h
  obtain ⟨x, mid, front, hx, hmid, hfront, hpx⟩ := hf s _ h
  obtain ⟨y, s', back, hy, hs', hback, hqy⟩ :=
    hg front x hfront hpx mid later (hmid.offers hfront h)
  refine ⟨y, s', front ++ back, ?_, hmid.trans hs', ?_, hqy⟩
  · simp only [hx]
    exact hy
  · rw [List.map_append, hfront, hback]

theorem Asks.map {f : Supply → Option (α × Supply)} (hf : Asks f kinds p) {g : α → β}
    (hg : ∀ front x, p front x → q front (g x)) :
    Asks (fun s => (f s).map fun r => (g r.1, r.2)) kinds q := by
  intro s later h
  obtain ⟨x, s', front, hx, hs', hfront, hpx⟩ := hf s later h
  refine ⟨g x, s', front, ?_, hs', hfront, hg front x hpx⟩
  simp only [hx, Option.map_some]

/-- An argument that is taken in order, where every argument of a kind is one that can be read. -/
theorem asks_take {k : Kind} {f : Argument → Option α}
    (hf : ∀ a, a.kind = k → ∃ x, f a = some x ∧ p [a] x) :
    Asks (fun s => (s.take .next).bind fun r => (f r.1).bind fun x => some (x, r.2)) [k] p := by
  intro s later h
  cases hrest : s.rest with
  | nil => simp [Offers, hrest] at h
  | cons a rest =>
    have hk : a.kind = k := by
      rw [Offers, hrest, List.map_cons, List.singleton_append, List.cons_prefix_cons] at h
      exact h.1.symm
    obtain ⟨x, hx, hpx⟩ := hf a hk
    refine ⟨x, ⟨s.all, rest⟩, [a], ?_, hrest, by rw [List.map_singleton, hk], hpx⟩
    simp [take, hrest, hx]

theorem asks_takeWord : Asks (fun s => s.takeWord .next) [.word] fun _ _ => True := by
  simp only [takeWord_eq]
  refine asks_take fun a ha => ?_
  cases a <;> cases ha
  exact ⟨_, rfl, trivial⟩

end Supply

namespace Amount

theorem asks {amount : Amount} (h : amount.InOrder) :
    Supply.Asks (fun s => s.amount amount) (List.replicate amount.arity .word) fun _ _ => True := by
  match amount, h with
  | given n, _ => exact Supply.asks_pure trivial
  | argument .next, _ => exact Supply.asks_takeWord.map fun _ _ _ => trivial

theorem asks? {amount : Option Amount} (h : ∀ a ∈ amount, a.InOrder) :
    Supply.Asks (fun s => s.amount? amount) (List.replicate (amount.elim 0 arity) .word)
      fun _ _ => True := by
  cases amount with
  | none => exact Supply.asks_pure trivial
  | some amount => exact (asks (h amount rfl)).map fun _ _ _ => trivial

end Amount

/-! ## The host's language -/

namespace Hosted

/-- The kinds of arguments that a conversion takes. -/
def Conversion.kinds (c : Conversion) (length : Length) : List Kind :=
  match c with
  | percentSign | errorText | unknown => []
  | signed | unsigned _ | character _ | address => [.word]
  | floating .. => [.double]
  | text wide => [if wide || wideLength length then .wideText else .text]
  | count => [.cell]

/-- The kinds of arguments that a directive takes: words for its stars, and
those of its conversion. -/
def Spec.kinds (spec : Spec) (letter : Option UInt8) : List Kind :=
  List.replicate (spec.width.elim 0 Amount.arity) .word ++
    (List.replicate (spec.precision.elim 0 Amount.arity) .word ++
      letter.elim [] fun letter => (Conversion.ofLetter letter).kinds spec.length)

def partKinds : Item Spec → List Kind
  | .literal _ => []
  | .directive spec letter => spec.kinds (some letter)
  | .unfinished spec => spec.kinds none

/-- A directive that names no argument by its position, and asks for no text with a length
that texts do not have. -/
structure Spec.Standard (spec : Spec) (letter : Option UInt8) : Prop where
  inOrder : spec.InOrder
  text : spec.length = .extended → ∀ b ∈ letter, ∀ wide, Conversion.ofLetter b ≠ .text wide

def Standard : Item Spec → Prop
  | .literal _ => True
  | .directive spec letter => spec.Standard (some letter)
  | .unfinished spec => spec.Standard none

/-- Arguments that match a format. -/
structure Matches (fmt : Bytes) (args : List Argument) : Prop where
  standard : ∀ part ∈ Template.parse Spec.scan fmt, Standard part
  offers : (Supply.ofList args).Offers ((Template.parse Spec.scan fmt).flatMap partKinds)

theorem Conversion.exists_apply {c : Conversion} {l : Layout} {k : Kind} {a : Argument}
    (h : c.kinds l.length = [k]) (ha : a.kind = k) : ∃ effect, c.apply l a = some effect := by
  subst ha
  cases c with
  | percentSign | errorText | unknown => cases h
  | signed | unsigned | floating | address | count =>
    cases a <;> cases h
    exact ⟨_, rfl⟩
  | character wide =>
    cases a <;> cases h
    simp only [apply]
    split <;> exact ⟨_, rfl⟩
  | text wide =>
    simp only [kinds, List.cons.injEq, and_true] at h
    by_cases hwide : (wide || wideLength l.length) = true
    · rw [if_pos hwide] at h
      cases a <;> cases h
      exact ⟨_, if_pos hwide⟩
    · rw [if_neg hwide] at h
      cases a <;> cases h
      exact ⟨_, if_neg hwide⟩

/-- What a conversion takes is the same in both manners of reading, if it has its length. -/
theorem Conversion.kinds_manner {c : Conversion} {length : Length}
    (h : length = .extended → ∀ wide, c ≠ .text wide) (manner : Manner) :
    c.kinds (manner.length length) = c.kinds length := by
  cases c with
  | text wide =>
    cases manner with
    | strict => rfl
    | lenient =>
      cases length with
      | extended => exact absurd rfl (h rfl wide)
      | _ => rfl
  | _ => rfl

theorem Conversion.asks_apply {c : Conversion} {l : Layout} {k : Kind}
    (h : c.kinds l.length = [k]) :
    Supply.Asks
      (fun s => (s.take .next).bind fun r => (c.apply l r.1).bind fun effect => some (effect, r.2))
      [k] fun _ _ => True := by
  refine Supply.asks_take fun a ha => ?_
  obtain ⟨effect, heffect⟩ := exists_apply h ha
  exact ⟨effect, heffect, trivial⟩

theorem Conversion.asks_perform {spec : Spec} (hsource : spec.source = .next) (c : Conversion)
    (errno : Int) (letter : UInt8) (l : Layout) :
    Supply.Asks (c.perform errno spec letter l) (c.kinds l.length) fun _ _ => True := by
  cases c with
  | percentSign | errorText | unknown => exact Supply.asks_pure trivial
  | signed | unsigned | floating | character | text | address | count =>
    unfold perform
    rw [hsource]
    exact asks_apply rfl

theorem asks_perform {spec : Spec} {letter : Option UInt8} (h : spec.Standard letter)
    (manner : Manner) (errno : Int) :
    Supply.Asks (perform manner errno spec letter) (spec.kinds letter) fun _ _ => True := by
  have hsettle : Supply.Asks (spec.settle manner)
      (List.replicate (spec.width.elim 0 Amount.arity) .word ++
        (List.replicate (spec.precision.elim 0 Amount.arity) .word ++ []))
      fun _ l => l.length = manner.length spec.length := by
    refine (Amount.asks? h.inOrder.width).bind fun _ width _ _ => ?_
    exact (Amount.asks? h.inOrder.precision).bind fun _ precision _ _ => Supply.asks_pure rfl
  rw [Spec.kinds, ← List.append_assoc]
  rw [List.append_nil] at hsettle
  refine hsettle.bind fun _ l _ hl => ?_
  cases letter with
  | none => exact Supply.asks_pure trivial
  | some letter =>
    have hkinds := Conversion.kinds_manner (fun hlength => h.text hlength letter rfl) manner
    simp only [Option.elim_some]
    rw [← hkinds, ← hl]
    exact (Conversion.ofLetter letter).asks_perform h.inOrder.source errno letter l

section Moves

variable {errno : Int} {part : Item Spec} {parts : List (Item Spec)} {p : Progress}
  {later : List Kind}

/-- A move goes on with the arguments that are asked for behind it, or it fails. -/
def GoesOnOrFails (m : Move Progress) (later : List Kind) : Prop :=
  match m with
  | .on _ _ next => next.supply.Offers later
  | .halt _ ending _ => ∃ cause, ending = .failed cause

theorem Progress.offer_goesOn (h : p.supply.Offers later) (text : Rope UInt8) :
    GoesOnOrFails (p.offer text) later := by
  unfold offer
  split
  · exact ⟨_, rfl⟩
  · exact h

theorem directiveMove_goesOn {spec : Spec} {letter : Option UInt8} (h : spec.Standard letter)
    (hoffers : p.supply.Offers (spec.kinds letter ++ later)) :
    GoesOnOrFails (directiveMove errno spec letter p) later := by
  unfold directiveMove
  cases p.manner.next spec letter with
  | error cause => exact ⟨_, rfl⟩
  | ok manner =>
    obtain ⟨effect, supply, front, hperform, hgives, hfront, -⟩ :=
      asks_perform h manner errno p.supply later hoffers
    simp only [hperform]
    cases effect with
    | write text => exact Progress.offer_goesOn (hgives.offers hfront hoffers) text
    | store cell size => exact hgives.offers hfront hoffers
    | fail text cause => exact ⟨_, rfl⟩

theorem move_goesOn (h : Standard part) (hoffers : p.supply.Offers (partKinds part ++ later)) :
    GoesOnOrFails (move errno part p) later := by
  cases part with
  | literal text => exact Progress.offer_goesOn hoffers _
  | directive | unfinished => exact directiveMove_goesOn h hoffers

theorem done_or_failed_of_offers (h : ∀ part ∈ parts, Standard part)
    (hoffers : p.supply.Offers (parts.flatMap partKinds)) :
    (runMoves (move errno) parts p).ending = .done ∨
      ∃ cause, (runMoves (move errno) parts p).ending = .failed cause := by
  induction parts generalizing p with
  | nil => exact .inl rfl
  | cons part parts ih =>
    obtain ⟨hpart, hparts⟩ := List.forall_mem_cons.1 h
    have hmove : GoesOnOrFails (move errno part p) (parts.flatMap partKinds) :=
      move_goesOn hpart hoffers
    rw [runMoves]
    cases hm : move errno part p with
    | on text stores next =>
      rw [hm] at hmove
      exact ih hparts hmove
    | halt text ending early =>
      rw [hm] at hmove
      exact .inr hmove

/-- A write with arguments that match its format is done or fails. -/
theorem Matches.done_or_failed {fmt : Bytes} {args : List Argument} (h : Matches fmt args)
    (errno : Int) :
    (format fmt args errno).ending = .done ∨
      ∃ cause, (format fmt args errno).ending = .failed cause := by
  rw [format_eq]
  exact done_or_failed_of_offers h.standard h.offers

end Moves

end Hosted

/-! ## The freestanding language -/

namespace Freestanding

/-- The kinds of arguments that a conversion takes. -/
def Conversion.kinds : Conversion → List Kind
  | percentSign | refused => []
  | signed | unsigned .. | character | address => [.word]
  | floating _ => [.double]
  | text => [.text]

/-- The kinds of arguments that a directive takes: words for its stars, and
those of its conversion. -/
def Spec.kinds (spec : Spec) (letter : UInt8) : List Kind :=
  List.replicate spec.width.arity .word ++
    (List.replicate (spec.precision.elim 0 Amount.arity) .word ++
      (Conversion.ofLetter letter).kinds)

/-- The kinds of arguments that some parts take, up to one that is refused. -/
def kinds : List (Item Spec) → List Kind
  | [] => []
  | .literal _ :: parts => kinds parts
  | .unfinished _ :: _ => []
  | .directive spec letter :: parts =>
    spec.kinds letter ++ if Conversion.ofLetter letter = .refused then [] else kinds parts

/-- Arguments that match a format. A text is one of bytes, whatever its length says. -/
def Matches (fmt : Bytes) (args : List Argument) : Prop :=
  (Supply.ofList args).Offers (kinds (Template.parse Spec.scan fmt))

instance (fmt : Bytes) (args : List Argument) : Decidable (Matches fmt args) :=
  inferInstanceAs (Decidable (_ <+: _))

theorem Conversion.exists_apply {c : Conversion} {k : Kind} {a : Argument} (h : c.kinds = [k])
    (ha : a.kind = k) (l : Layout) : ∃ attempt, c.apply l a = some attempt := by
  subst ha
  cases c with
  | percentSign | refused => cases h
  | signed | unsigned | floating | character | text | address =>
    cases a <;> cases h
    exact ⟨_, rfl⟩

/-- A text among some arguments that is not UTF-8. -/
def HasInvalidText (args : List Argument) : Prop :=
  ∃ bs, .text bs ∈ args ∧ ¬ Utf8.Valid bs.untilZero

theorem hasInvalidText_append {front back : List Argument} :
    HasInvalidText (front ++ back) ↔ HasInvalidText front ∨ HasInvalidText back := by
  simp only [HasInvalidText, List.mem_append, or_and_right, exists_or]

theorem not_hasInvalidText {args : List Argument} (h : Kind.text ∉ args.map Argument.kind) :
    ¬ HasInvalidText args :=
  fun ⟨_, hmem, _⟩ => h (List.mem_map_of_mem (f := Argument.kind) hmem)

theorem Conversion.asks_apply {c : Conversion} {k : Kind} (h : c.kinds = [k]) (l : Layout) :
    Supply.Asks
      (fun s =>
        (s.take .next).bind fun r => (c.apply l r.1).bind fun attempt => some (attempt, r.2))
      [k] fun front attempt => attempt = .refuse ↔ HasInvalidText front := by
  refine Supply.asks_take fun a ha => ?_
  obtain ⟨attempt, happly⟩ := exists_apply h ha l
  refine ⟨attempt, happly, ?_⟩
  unfold HasInvalidText
  simp only [List.mem_singleton, eq_comm (b := a)]
  rcases apply_cases happly with ⟨_, -, huses, hvalid⟩ | ⟨-, rfl, hinvalid⟩
  · refine ⟨fun hrefuse => absurd hrefuse huses.ne_refuse, ?_⟩
    rintro ⟨bs, hbs, hnot⟩
    exact absurd (hvalid bs hbs) hnot
  · exact ⟨fun _ => hinvalid, fun _ => rfl⟩

theorem Spec.asks_settle {spec : Spec} (h : spec.InOrder) :
    Supply.Asks spec.settle
      (List.replicate spec.width.arity .word ++
        List.replicate (spec.precision.elim 0 Amount.arity) .word)
      fun _ _ => True := by
  refine (Amount.asks h.width).bind fun _ width _ _ => ?_
  rw [← List.append_nil (List.replicate _ _)]
  exact (Amount.asks? h.precision).bind fun _ precision _ _ => Supply.asks_pure trivial

/-- With arguments that match it, a directive is refused for its letter or for a
text that is not UTF-8. -/
theorem asks_perform {spec : Spec} (h : spec.InOrder) (letter : UInt8) :
    Supply.Asks (perform spec letter) (spec.kinds letter) fun front attempt =>
      attempt = .refuse ↔ Conversion.ofLetter letter = .refused ∨ HasInvalidText front := by
  rw [Spec.kinds, ← List.append_assoc]
  refine (Spec.asks_settle h).bind fun stars l hstars _ => ?_
  have hwords : ¬ HasInvalidText stars := not_hasInvalidText (by simp [hstars])
  simp only [hasInvalidText_append, hwords, false_or]
  cases Conversion.ofLetter letter with
  | percentSign => exact Supply.asks_pure (by simp [HasInvalidText])
  | refused => exact Supply.asks_pure (by simp)
  | signed | unsigned | floating | character | text | address =>
    simp only [reduceCtorEq, false_or]
    exact Conversion.asks_apply rfl l

end Freestanding

end FormattedOutput
