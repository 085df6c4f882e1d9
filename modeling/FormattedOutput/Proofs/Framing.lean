import FormattedOutput.Proofs.Moves
import FormattedOutput.Proofs.Scanning
import FormattedOutput.Proofs.Template
import FormattedOutput.Proofs.Written

/-! Parts of a format with more around them. Where arguments are taken in order and no count is
stored, a stretch of parts takes a fixed number of arguments (`passes_arity`), and it is carried out
in the same way with other arguments behind these and with other text before (`passes_extend`). -/

namespace FormattedOutput

/-- A letter is no digit if it does not mean what all digits mean. -/
theorem nonDigit_of_ne {α : Type} {meaning : UInt8 → α} {a : α}
    (hdigits : ∀ c ∈ decimalDigits, meaning c.toUInt8 = a) {letter : UInt8}
    (h : meaning letter ≠ a) : NonDigit letter := by
  rw [NonDigit, Bool.eq_false_iff]
  intro hdigit
  have hmeaning := hdigits _ (mem_decimalDigits hdigit)
  rw [toUInt8_ofUInt8] at hmeaning
  exact h hmeaning

/-! ## The host's language -/

namespace Hosted

variable {errno : Int} {part : Item Spec} {parts : List (Item Spec)} {p p' : Progress}
  {text : Rope UInt8} {stores : List Store}

/-- The number of arguments that a part takes. -/
def partArity : Item Spec → Nat
  | .literal _ => 0
  | .directive spec letter => spec.arity (some letter)
  | .unfinished spec => spec.arity none

/-- The number of arguments that some parts take. -/
def arity (parts : List (Item Spec)) : Nat := parts.foldr (fun part n => partArity part + n) 0

/-- A part that takes its arguments in order and stores no count. -/
def Ordered : Item Spec → Prop
  | .literal _ => True
  | .directive spec letter => spec.InOrder ∧ Conversion.ofLetter letter ≠ .count
  | .unfinished spec => spec.InOrder

/-- The same place in a write with other arguments and with more text before it. -/
def Progress.extend (all extra : List Argument) (count : Nat) (p : Progress) : Progress where
  manner := p.manner
  supply := p.supply.extend all extra
  written := p.written + count

theorem write_of_perform {manner : Manner} {spec : Spec} {letter : Option UInt8} {s s' : Supply}
    {effect : Effect} (hcount : ∀ b ∈ letter, Conversion.ofLetter b ≠ .count)
    (h : perform manner errno spec letter s = some (effect, s'))
    (hmove : effect.move p = .on text stores p') : effect = .write text := by
  cases effect with
  | write =>
    obtain ⟨-, rfl, -⟩ := Progress.offer_eq_on_iff.1 hmove
    rfl
  | fail => cases hmove
  | store cell size =>
    obtain ⟨l, mid, b, arg, hletter, -, -, happly⟩ := apply_of_perform h nofun
    obtain ⟨_, hwrite⟩ | ⟨hc, -⟩ | ⟨-, hfail⟩ | ⟨_, _, _, -, -, -, hfail⟩ :=
      Conversion.apply_cases happly
    · cases hwrite
    · exact absurd hc (hcount b hletter)
    · cases hfail
    · cases hfail

/-- A directive in another place takes the same arguments and writes the same. -/
theorem directiveMove_extend {spec : Spec} {letter : Option UInt8} (hspec : spec.InOrder)
    (hcount : ∀ b ∈ letter, Conversion.ofLetter b ≠ .count)
    (h : directiveMove errno spec letter p = .on text stores p') :
    stores = [] ∧ p.supply.rest.length = p'.supply.rest.length + spec.arity letter ∧
      ∀ all extra count, p'.written + count ≤ maxInt →
        directiveMove errno spec letter (p.extend all extra count) =
          .on text stores (p'.extend all extra count) := by
  obtain ⟨manner, effect, supply, hnext, hperform, hmove⟩ := directiveMove_eq_on h
  cases write_of_perform hcount hperform hmove
  obtain ⟨-, -, rfl, rfl⟩ := Progress.offer_eq_on_iff.1 hmove
  have htakes := takes_perform hspec manner errno letter
  refine ⟨rfl, htakes.length_eq hperform, fun all extra count hmax => ?_⟩
  have hoffer : (Progress.mk manner (supply.extend all extra) (p.written + count)).offer text =
      .on text [] (Progress.extend all extra count ⟨manner, supply, p.written + text.length⟩) := by
    refine Progress.offer_eq_on_iff.2 ⟨?_, rfl, rfl, ?_⟩
    · simp only at hmax ⊢
      omega
    · simp [Progress.extend, Nat.add_right_comm]
  simp only [directiveMove, Progress.extend, hnext, htakes.extend_eq hperform all extra]
  exact hoffer

theorem move_extend (hpart : Ordered part) (h : move errno part p = .on text stores p') :
    stores = [] ∧ p.supply.rest.length = p'.supply.rest.length + partArity part ∧
      ∀ all extra count, p'.written + count ≤ maxInt →
        move errno part (p.extend all extra count) =
          .on text stores (p'.extend all extra count) := by
  cases part with
  | literal bytes =>
    obtain ⟨hmax, rfl, rfl, rfl⟩ := Progress.offer_eq_on_iff.1 h
    refine ⟨rfl, rfl, fun all extra count hmax' => ?_⟩
    refine Progress.offer_eq_on_iff.2 ⟨?_, rfl, rfl, ?_⟩
    · simp only [Progress.extend] at hmax' ⊢
      omega
    · simp [Progress.extend, Nat.add_right_comm]
  | directive spec letter =>
    exact directiveMove_extend hpart.1 (fun b hb => Option.some.inj hb ▸ hpart.2) h
  | unfinished spec => exact directiveMove_extend hpart nofun h

theorem passes_extend (hparts : ∀ part ∈ parts, Ordered part)
    (H : Passes (move errno) parts p text stores p') {count : Nat} (all extra : List Argument)
    (hmax : p'.written + count ≤ maxInt) :
    Passes (move errno) parts (p.extend all extra count) text stores
      (p'.extend all extra count) := by
  refine (H.map (f := Progress.extend all extra count) (p := fun q => q.written + count ≤ maxInt)
    (fun part hpart q offered stores q' hmove hmax => ⟨?_, ?_⟩) hmax).2
  · have := (advances_of_move hmove).written
    omega
  · exact (move_extend (hparts part hpart) hmove).2.2 all extra count hmax

theorem passes_arity (hparts : ∀ part ∈ parts, Ordered part)
    (H : Passes (move errno) parts p text stores p') :
    stores = [] ∧ p.supply.rest.length = p'.supply.rest.length + arity parts := by
  refine H.measure partArity (fun q => q.supply.rest.length)
    fun part hpart q offered stores q' hmove => ?_
  obtain ⟨hstores, hlength, -⟩ := move_extend (hparts part hpart) hmove
  exact ⟨hstores, hlength⟩

/-! ### Strict reading -/

theorem manner_of_directiveMove {spec : Spec} {letter : Option UInt8}
    (h : directiveMove errno spec letter p = .on text stores p') :
    p.manner.next spec letter = .ok p'.manner := by
  obtain ⟨manner, effect, supply, hnext, -, hmove⟩ := directiveMove_eq_on h
  cases effect with
  | write =>
    obtain ⟨-, -, -, rfl⟩ := Progress.offer_eq_on_iff.1 hmove
    exact hnext
  | store =>
    cases hmove
    exact hnext
  | fail => cases hmove

/-- A part that names no argument by its position, stores no count and has no
letter that means nothing. -/
def Ordinary : Item Spec → Prop
  | .literal _ => True
  | .directive spec letter =>
    .positional ∉ spec.marks ∧ Conversion.ofLetter letter ≠ .count ∧
      Conversion.ofLetter letter ≠ .unknown
  | .unfinished spec => .positional ∉ spec.marks

/-- A part whose conversion is known with its length. -/
def FitsLength : Item Spec → Prop
  | .literal _ | .unfinished _ => True
  | .directive spec letter => (Conversion.ofLetter letter).takes spec.length = true

instance : DecidablePred Ordinary
  | .literal _ => isTrue trivial
  | .directive _ _ => inferInstanceAs (Decidable (_ ∧ _ ∧ _))
  | .unfinished _ => inferInstanceAs (Decidable (¬ _))

instance : DecidablePred FitsLength
  | .literal _ | .unfinished _ => isTrue trivial
  | .directive _ _ => inferInstanceAs (Decidable (_ = true))

theorem ordered_of_ordinary {fmt : Bytes} :
    ∀ part ∈ Template.parse Spec.scan fmt, Ordinary part → Ordered part := by
  refine Template.forall_mem_parse (fun _ _ _ => trivial) ?_ ?_
  · intro stretch _ spec letter text hscan
    exact ⟨fun h => ⟨Spec.inOrder_of_scan hscan h.1, h.2.1⟩, fun _ => trivial⟩
  · intro stretch _ spec hscan
    exact ⟨fun h => ⟨Spec.inOrder_of_scan hscan h.1, h.2.1⟩, Spec.inOrder_of_scan hscan⟩

/-- Without a position, a directive that is met in strict reading has a letter,
and its length decides. -/
theorem Spec.manner_eq_ok {spec : Spec} {letter : Option UInt8} {manner : Manner}
    (hmarks : .positional ∉ spec.marks) (h : spec.manner letter = .ok manner) :
    ∃ b, letter = some b ∧
      manner = if (Conversion.ofLetter b).takes spec.length then .strict else .lenient := by
  unfold Spec.manner at h
  split at h
  · cases h
  · next hpositional => simp [hpositional] at hmarks
  · cases h
  · cases h
    exact ⟨_, rfl, rfl⟩

theorem strict_of_move (hordinary : Ordinary part) (hfits : FitsLength part)
    (hp : p.manner = .strict) (h : move errno part p = .on text stores p') :
    p'.manner = .strict ∧ Template.Closed NonDigit part := by
  cases part with
  | literal =>
    obtain ⟨-, -, -, rfl⟩ := Progress.offer_eq_on_iff.1 h
    exact ⟨hp, trivial⟩
  | directive spec letter =>
    have hnext := manner_of_directiveMove h
    rw [hp] at hnext
    obtain ⟨b, hb, hmanner⟩ := Spec.manner_eq_ok hordinary.1 hnext
    cases hb
    exact ⟨hmanner.trans (if_pos hfits),
      nonDigit_of_ne (forall_mem_of_all (by decide)) hordinary.2.2⟩
  | unfinished spec =>
    have hnext := manner_of_directiveMove h
    rw [hp] at hnext
    obtain ⟨b, hb, -⟩ := Spec.manner_eq_ok hordinary hnext
    cases hb

theorem strict_of_passes (hparts : ∀ part ∈ parts, Ordinary part ∧ FitsLength part)
    (hp : p.manner = .strict) (H : Passes (move errno) parts p text stores p') :
    p'.manner = .strict ∧ ∀ part ∈ parts, Template.Closed NonDigit part := by
  induction H with
  | nil => exact ⟨hp, fun _ hmem => absurd hmem List.not_mem_nil⟩
  | cons hmove _ ih =>
    obtain ⟨hpart, hlater⟩ := List.forall_mem_cons.1 hparts
    obtain ⟨hmid, hclosed⟩ := strict_of_move hpart.1 hpart.2 hp hmove
    obtain ⟨hend, hcloseds⟩ := ih hlater hmid
    exact ⟨hend, List.forall_mem_cons.2 ⟨hclosed, hcloseds⟩⟩

end Hosted

/-! ## The freestanding language -/

namespace Freestanding

variable {part : Item Spec} {parts : List (Item Spec)} {s s' : Supply} {text : Rope UInt8}
  {stores : List Store}

/-- The number of arguments that a part takes. -/
def partArity : Item Spec → Nat
  | .literal _ | .unfinished _ => 0
  | .directive spec letter => spec.arity letter

/-- The number of arguments that some parts take. -/
def arity (parts : List (Item Spec)) : Nat := parts.foldr (fun part n => partArity part + n) 0

/-- A part that takes its arguments in order, as every part of a format does. -/
def Ordered : Item Spec → Prop
  | .literal _ | .unfinished _ => True
  | .directive spec _ => spec.InOrder

theorem ordered_of_mem {fmt : Bytes} : ∀ part ∈ Template.parse Spec.scan fmt, Ordered part := by
  refine Template.forall_mem_parse (fun _ _ => trivial) ?_ ?_
  · exact fun stretch _ spec letter text hscan => ⟨Spec.inOrder_of_scan hscan, trivial⟩
  · exact fun stretch _ spec hscan => ⟨Spec.inOrder_of_scan hscan, trivial⟩

theorem Attempt.move_eq_on {a : Attempt} (h : a.move s = .on text stores s') :
    ∃ cs, a = .write cs ∧ text = Utf8.encodeRope cs ∧ stores = [] ∧ s' = s := by
  cases a <;> cases h
  exact ⟨_, rfl, rfl, rfl, rfl⟩

theorem directive_eq_on {spec : Spec} {letter : UInt8}
    (h : move (.directive spec letter) s = .on text stores s') :
    ∃ cs, perform spec letter s = some (.write cs, s') ∧ text = Utf8.encodeRope cs ∧
      stores = [] := by
  simp only [move] at h
  split at h
  · next hperform =>
    obtain ⟨cs, rfl, rfl, rfl, rfl⟩ := Attempt.move_eq_on h
    exact ⟨cs, hperform, rfl, rfl⟩
  · cases h

theorem move_extend (hpart : Ordered part) (h : move part s = .on text stores s') :
    stores = [] ∧ s.rest.length = s'.rest.length + partArity part ∧
      ∀ all extra, move part (s.extend all extra) = .on text stores (s'.extend all extra) := by
  cases part with
  | literal bytes =>
    obtain ⟨cs, hwrite, rfl, rfl, rfl⟩ := Attempt.move_eq_on h
    refine ⟨rfl, rfl, fun all extra => ?_⟩
    simp only [move, hwrite, Attempt.move]
  | unfinished spec => cases h
  | directive spec letter =>
    obtain ⟨cs, hperform, rfl, rfl⟩ := directive_eq_on h
    have htakes := takes_perform hpart letter
    refine ⟨rfl, htakes.length_eq hperform, fun all extra => ?_⟩
    simp only [move, htakes.extend_eq hperform all extra, Attempt.move]

theorem passes_extend (hparts : ∀ part ∈ parts, Ordered part)
    (H : Passes move parts s text stores s') (all extra : List Argument) :
    Passes move parts (s.extend all extra) text stores (s'.extend all extra) := by
  refine (H.map (f := Supply.extend all extra) (p := fun _ => True)
    (fun part hpart t offered stores t' hmove _ => ⟨trivial, ?_⟩) trivial).2
  exact (move_extend (hparts part hpart) hmove).2.2 all extra

theorem passes_arity (hparts : ∀ part ∈ parts, Ordered part)
    (H : Passes move parts s text stores s') :
    stores = [] ∧ s.rest.length = s'.rest.length + arity parts := by
  refine H.measure partArity (fun t => t.rest.length) fun part hpart t offered stores t' hmove => ?_
  obtain ⟨hstores, hlength, -⟩ := move_extend (hparts part hpart) hmove
  exact ⟨hstores, hlength⟩

theorem closed_of_move (h : move part s = .on text stores s') : Template.Closed NonDigit part := by
  cases part with
  | literal => trivial
  | unfinished => cases h
  | directive spec letter =>
    obtain ⟨cs, hperform, -⟩ := directive_eq_on h
    have hdigits : ∀ c ∈ decimalDigits, Conversion.ofLetter c.toUInt8 = .refused :=
      forall_mem_of_all (by decide)
    refine nonDigit_of_ne hdigits fun hrefused => ?_
    obtain ⟨⟨l, mid⟩, -, hconvert⟩ := Option.bind_eq_some_iff.1 hperform
    rw [hrefused] at hconvert
    cases hconvert

theorem closed_of_passes (H : Passes move parts s text stores s') :
    ∀ part ∈ parts, Template.Closed NonDigit part := by
  induction H with
  | nil => exact fun _ hmem => absurd hmem List.not_mem_nil
  | cons hmove _ ih => exact List.forall_mem_cons.2 ⟨closed_of_move hmove, ih⟩

end Freestanding

end FormattedOutput
