import FormattedOutput.Proofs.Moves
import FormattedOutput.Proofs.Utf8

/-! Attempts to write in the freestanding language. A part of a format is refused, or it uses some
amounts, and then it writes if all of these are in range and aborts otherwise (`Attempt.Uses`).
Which amounts a write uses can be told from its format and its arguments (`demands`), and it is
aborted if one of them is out of range and only then (`aborted_iff`). -/

namespace FormattedOutput.Freestanding

open Number

variable {l : Layout} {s s' : Supply} {part : Item Spec} {ns : List Int}

/-- An amount that can be used. -/
def InRange (n : Int) : Prop := 0 ≤ n ∧ n ≤ maxAmount

instance : DecidablePred InRange := fun _ => inferInstanceAs (Decidable (_ ∧ _))

namespace Attempt

/-- An attempt that uses some amounts: it writes if they are in range, and aborts otherwise. -/
structure Uses (a : Attempt) (ns : List Int) : Prop where
  write : (∀ n ∈ ns, InRange n) → ∃ text, a = .write text
  abort : ∀ n ∈ ns, ¬ InRange n → a = .abort

theorem uses_write (text : Rope Char) : (write text).Uses [] :=
  ⟨fun _ => ⟨text, rfl⟩, nofun⟩

theorem uses_within (n : Int) (go : Nat → Rope Char) : (within n go).Uses [n] where
  write h := ⟨_, if_pos (h n List.mem_cons_self)⟩
  abort m hm hout := by
    rw [List.mem_singleton.1 hm] at hout
    exact if_neg hout

theorem Uses.require {a : Attempt} (h : a.Uses ns) (n : Int) : (a.require n).Uses (n :: ns) := by
  by_cases hn : InRange n
  · have hrequire : a.require n = a := if_pos hn
    rw [hrequire]
    refine ⟨fun hns => h.write (List.forall_mem_cons.1 hns).2, fun m hm hout => ?_⟩
    rcases List.mem_cons.1 hm with rfl | hm
    · exact absurd hn hout
    · exact h.abort m hm hout
  · exact ⟨fun hns => absurd (hns n List.mem_cons_self) hn, fun _ _ _ => if_neg hn⟩

theorem Uses.ne_refuse {a : Attempt} (h : a.Uses ns) : a ≠ .refuse := by
  rintro rfl
  by_cases hns : ∀ n ∈ ns, InRange n
  · obtain ⟨_, hwrite⟩ := h.write hns
    cases hwrite
  · simp only [Classical.not_forall] at hns
    obtain ⟨n, hmem, hout⟩ := hns
    cases h.abort n hmem hout

end Attempt

/-! ## The amounts of a conversion -/

/-- An integer behind its sign. -/
def Signed.ofInt (n : Int) : Signed where
  negative := n < 0
  digits := .ofList (Nat.toDigits 10 n.natAbs)

/-- A binary64 number behind its sign. -/
def Signed.ofBinary64 (style : FloatStyle) (precision : Nat) (x : Binary64) : Signed :=
  match x.magnitude with
  | .infinite => { negative := x.negative, digits := .ofList ['i', 'n', 'f'] }
  | .nan => { negative := x.negative, signable := false, digits := .ofList ['N', 'a', 'N'] }
  | .finite coefficient exponent =>
    { negative := x.negative,
      digits := floatDigits style (.ofBinary coefficient exponent) precision }

/-- The width that is used for a number. A space in place of a plus sign stands in front of the
field and takes a column from it, but none from a field of zeros that is too short for both. A field
that is filled by spaces from the left is widened to hold both. -/
def Layout.signedWidth (l : Layout) (n : Signed) : Int :=
  let size : Int := (n.numeral false).text.length + 1
  let tight := 0 ≤ l.width ∧ l.width < size
  if l.flags.plus || !(l.flags.space && !n.negative) then l.width
  else if l.flags.left then l.width - 1
  else if l.flags.zero then if tight then l.width else l.width - 1
  else if tight then size else l.width

theorem signedField_uses (l : Layout) (n : Signed) : (signedField l n).Uses [l.signedWidth n] := by
  simp only [signedField, Layout.signedWidth]
  generalize (l.flags.space && !n.negative) = spaced
  cases l.flags.plus with
  | true => cases l.flags.left <;> exact Attempt.uses_within _ _
  | false =>
    cases spaced with
    | false => cases l.flags.left <;> cases l.flags.zero <;> simp [Attempt.uses_within]
    | true =>
      by_cases htight : 0 ≤ l.width ∧ l.width < (n.numeral false).text.length + 1
      all_goals
        cases l.flags.left <;> cases l.flags.zero <;>
          simp only [htight, Bool.not_true, Bool.or_false, Bool.false_eq_true, and_self,
            and_false, if_true, if_false, Attempt.uses_within]

/-- The amounts that a conversion uses, unless it refuses its argument. -/
def Conversion.demand (c : Conversion) (l : Layout) (a : Argument) : Option (List Int) :=
  match c, a with
  | .signed, .word w => some [l.precision.getD 0, l.signedWidth (.ofInt (l.length.signed w))]
  | .unsigned .., .word _ | .character, .word _ | .address, .word _ => some [l.width]
  | .floating style, .double bits =>
    let precision := l.precision.getD 6
    some [precision, l.signedWidth (.ofBinary64 style precision.toNat (.ofBits bits))]
  | .text, .text bs =>
    if Utf8.Valid bs.untilZero then some [l.precision.getD bs.untilZero.length, l.width] else none
  | _, _ => none

theorem text_uses {bs : Bytes} (h : Utf8.Valid bs) (l : Layout) :
    (text l bs).Uses [l.precision.getD bs.length, l.width] := by
  obtain ⟨cs, hcs⟩ := h
  rw [text, Utf8.decode?_eq_some_iff.2 hcs]
  exact (Attempt.uses_within _ _).require _

theorem text_refused {bs : Bytes} (h : ¬ Utf8.Valid bs) (l : Layout) : text l bs = .refuse := by
  rw [text, Utf8.decode?_eq_none_iff.2 h]

/-- What becomes of a conversion: it uses its amounts, or it refuses a text that is not UTF-8. -/
theorem Conversion.apply_cases {c : Conversion} {a : Argument} {attempt : Attempt}
    (h : c.apply l a = some attempt) :
    (∃ ns, c.demand l a = some ns ∧ attempt.Uses ns ∧ ∀ bs, a = .text bs →
      Utf8.Valid bs.untilZero) ∨
      c.demand l a = none ∧ attempt = .refuse ∧ ∃ bs, a = .text bs ∧ ¬ Utf8.Valid bs.untilZero := by
  unfold apply at h
  split at h
  · cases h
    exact .inl ⟨_, rfl, (signedField_uses _ _).require _, nofun⟩
  · cases h
    exact .inl ⟨_, rfl, Attempt.uses_within _ _, nofun⟩
  · cases h
    exact .inl ⟨_, rfl, (signedField_uses _ _).require _, nofun⟩
  · cases h
    exact .inl ⟨_, rfl, Attempt.uses_within _ _, nofun⟩
  · next bs =>
    cases h
    by_cases hbs : Utf8.Valid bs.untilZero
    · refine .inl ⟨_, if_pos hbs, text_uses hbs l, fun bs' hbs' => ?_⟩
      cases hbs'
      exact hbs
    · exact .inr ⟨if_neg hbs, text_refused hbs l, bs, rfl, hbs⟩
  · cases h
    exact .inl ⟨_, rfl, Attempt.uses_within _ _, nofun⟩
  · cases h

theorem Conversion.demand_of_apply_none {c : Conversion} {a : Argument} (h : c.apply l a = none) :
    c.demand l a = none := by
  fun_cases demand c l a with
  | case1 | case2 | case3 | case4 | case5 | case6 | case7 => cases h
  | case8 => rfl

/-! ## The amounts of a write -/

/-- The amounts that a part uses and the arguments that it leaves, unless it is refused. -/
def demand : Item Spec → Supply → Option (List Int × Supply)
  | .literal bs, s => if Utf8.Valid bs then some ([(bs.length : Int), 0], s) else none
  | .unfinished _, _ => none
  | .directive spec letter, s => do
    let (l, s) ← spec.settle s
    match Conversion.ofLetter letter with
    | .percentSign => some ([], s)
    | .refused => none
    | c => do
      let (arg, s) ← s.take .next
      let ns ← c.demand l arg
      some (ns, s)

/-- The amounts that a write uses, up to the first part that is refused. -/
def demands : List (Item Spec) → Supply → List Int
  | [], _ => []
  | part :: parts, s =>
    match demand part s with
    | none => []
    | some (ns, s) => ns ++ demands parts s

/-- A directive is carried out with the amounts that it is said to use. -/
def Foreseen (demanded : Option (List Int × Supply))
    (performed : Option (Attempt × Supply)) : Prop :=
  match demanded with
  | some (ns, s') => ∃ a, performed = some (a, s') ∧ a.Uses ns
  | none => ∀ a s', performed = some (a, s') → a = .refuse

theorem Conversion.foreseen (c : Conversion) (l : Layout) (s : Supply) :
    Foreseen ((s.take .next).bind fun r => (c.demand l r.1).bind fun ns => some (ns, r.2))
      ((s.take .next).bind fun r => (c.apply l r.1).bind fun a => some (a, r.2)) := by
  cases s.take .next with
  | none =>
    intro a t h
    cases h
  | some taken =>
    obtain ⟨arg, s'⟩ := taken
    simp only [Option.bind_some]
    cases happly : c.apply l arg with
    | none =>
      rw [demand_of_apply_none happly]
      intro a t h
      cases h
    | some attempt =>
      rcases apply_cases happly with ⟨ns, hdemand, huses, -⟩ | ⟨hdemand, rfl, -⟩
      · rw [hdemand]
        exact ⟨attempt, rfl, huses⟩
      · rw [hdemand]
        intro a t h
        cases h
        rfl

theorem foreseen_perform (spec : Spec) (letter : UInt8) (s : Supply) :
    Foreseen (demand (.directive spec letter) s) (perform spec letter s) := by
  simp only [perform, demand, Option.bind_eq_bind]
  cases spec.settle s with
  | none =>
    intro a t h
    cases h
  | some settled =>
    obtain ⟨l, mid⟩ := settled
    simp only [Option.bind_some]
    cases Conversion.ofLetter letter with
    | percentSign => exact ⟨_, rfl, Attempt.uses_write _⟩
    | refused =>
      intro a t h
      cases h
      rfl
    | signed | unsigned | floating | character | text | address => exact Conversion.foreseen _ l mid

theorem move_of_demand (h : demand part s = some (ns, s')) :
    ∃ a : Attempt, a.Uses ns ∧ move part s = a.move s' := by
  cases part with
  | literal bs =>
    simp only [demand, Option.ite_none_right_eq_some, Option.some.injEq, Prod.mk.injEq] at h
    obtain ⟨hbs, rfl, rfl⟩ := h
    exact ⟨_, text_uses hbs _, rfl⟩
  | unfinished => cases h
  | directive spec letter =>
    have hforeseen := foreseen_perform spec letter s
    rw [h] at hforeseen
    obtain ⟨a, hperform, huses⟩ := hforeseen
    exact ⟨a, huses, by simp only [move, hperform]⟩

theorem move_of_no_demand (h : demand part s = none) :
    ∃ last ending early, move part s = .halt last ending early ∧ ending ≠ .aborted := by
  have hrefuse (t : Supply) : ∃ last ending early,
      Attempt.refuse.move t = .halt last ending early ∧ ending ≠ .aborted :=
    ⟨_, _, Ending.failed_ne_done _, rfl, Ending.noConfusion⟩
  cases part with
  | literal bs =>
    simp only [demand, ite_eq_right_iff, reduceCtorEq, imp_false] at h
    rw [move, literal, text_refused h]
    exact hrefuse s
  | unfinished => exact hrefuse s
  | directive spec letter =>
    have hforeseen := foreseen_perform spec letter s
    rw [h] at hforeseen
    cases hperform : perform spec letter s with
    | none =>
      simp only [move, hperform]
      exact ⟨_, _, Ending.undefined_ne_done, rfl, Ending.noConfusion⟩
    | some performed =>
      obtain ⟨a, t⟩ := performed
      simp only [move, hperform, hforeseen a t hperform]
      exact hrefuse t

/-- A write is aborted if it uses an amount that is out of range, and only then. -/
theorem aborted_iff (parts : List (Item Spec)) (s : Supply) :
    (runMoves move parts s).ending = .aborted ↔ ∃ n ∈ demands parts s, ¬ InRange n := by
  induction parts generalizing s with
  | nil => simp [runMoves, Outcome.finish, demands]
  | cons part parts ih =>
    rw [runMoves, demands]
    cases hdemand : demand part s with
    | none =>
      obtain ⟨last, ending, early, hmove, hending⟩ := move_of_no_demand hdemand
      simp [hmove, Move.outcome, hending]
    | some demanded =>
      obtain ⟨ns, s'⟩ := demanded
      obtain ⟨a, huses, hmove⟩ := move_of_demand hdemand
      -- the first part with an amount out of range ends the write,
      -- and no other part does so by aborting
      by_cases hns : ∃ n ∈ ns, ¬ InRange n
      · obtain ⟨n, hmem, hout⟩ := hns
        rw [hmove, huses.abort n hmem hout]
        exact ⟨fun _ => ⟨n, List.mem_append_left _ hmem, hout⟩, fun _ => rfl⟩
      · simp only [not_exists, not_and, Decidable.not_not] at hns
        obtain ⟨text, rfl⟩ := huses.write hns
        rw [hmove]
        refine (ih s').trans ⟨?_, ?_⟩
        · rintro ⟨n, hmem, hout⟩
          exact ⟨n, List.mem_append_right _ hmem, hout⟩
        · rintro ⟨n, hmem, hout⟩
          rcases List.mem_append.1 hmem with hmem | hmem
          · exact absurd (hns n hmem) hout
          · exact ⟨n, hmem, hout⟩

end FormattedOutput.Freestanding
