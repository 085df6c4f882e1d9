import FormattedOutput.Proofs.FailingWrite
import FormattedOutput.Proofs.Matching

/-! What the freestanding language refuses. Literal text is checked piece by piece, between the
directives. As a directive is read from bytes below 0x80, that comes to the same as a check of the
whole format (`valid_format_iff`). With arguments that match its format, a write that is not aborted
is done if nothing is refused, and fails otherwise (`ending_of_offers`). -/

namespace FormattedOutput

/-! ## Bytes below 0x80 -/

/-- A text is read up to `rest`, and all that is read are bytes below 0x80. -/
inductive AsciiRead (rest : Bytes) : Bytes → Prop where
  | nil : AsciiRead rest rest
  | cons {b : UInt8} {bs : Bytes} (hb : b < 0x80) (h : AsciiRead rest bs) : AsciiRead rest (b :: bs)

namespace AsciiRead

variable {bs rest rest' : Bytes}

theorem trans (h : AsciiRead rest bs) (h' : AsciiRead rest' rest) : AsciiRead rest' bs := by
  induction h with
  | nil => exact h'
  | cons hb _ ih => exact .cons hb ih

theorem of_append {front : Bytes} (h : ∀ b ∈ front, b < 0x80) : AsciiRead rest (front ++ rest) := by
  induction front with
  | nil => exact .nil
  | cons b front ih =>
    obtain ⟨hb, hfront⟩ := List.forall_mem_cons.1 h
    exact .cons hb (ih hfront)

theorem dropWhile {p : UInt8 → Bool} (hp : ∀ b, p b = true → b < 0x80) (bs : Bytes) :
    AsciiRead (bs.dropWhile p) bs := by
  have h : AsciiRead (bs.dropWhile p) (bs.takeWhile p ++ bs.dropWhile p) :=
    .of_append fun b hmem => hp b (List.mem_takeWhile_imp hmem)
  rwa [List.takeWhile_append_dropWhile] at h

theorem valid_iff (h : AsciiRead rest bs) : Utf8.Valid bs ↔ Utf8.Valid rest := by
  induction h with
  | nil => rfl
  | cons hb _ ih => exact (Utf8.valid_cons_iff hb).trans ih

end AsciiRead

theorem lt_of_ofUInt8 {b : UInt8} (h : (Char.ofUInt8 b).toNat < 128) : b < 0x80 :=
  UInt8.lt_iff_toNat_lt.2 h

theorem asciiRead_scanNumber {bs rest : Bytes} {n : Nat} (h : scanNumber bs = (n, rest)) :
    AsciiRead rest bs := by
  cases h
  have hascii : ∀ c ∈ decimalDigits, c.toNat < 128 := forall_mem_of_all (by decide)
  exact .dropWhile (fun b hb => lt_of_ofUInt8 (hascii _ (mem_decimalDigits hb))) bs

theorem Flags.asciiRead_scan {bs rest : Bytes} {letters : List Char} {flags : Flags}
    (hletters : ∀ c ∈ letters, c.toNat < 128) (h : Flags.scan letters bs = (flags, rest)) :
    AsciiRead rest bs := by
  cases h
  refine .dropWhile (fun b hb => lt_of_ofUInt8 (hletters _ ?_)) bs
  exact List.contains_iff_mem.1 hb

theorem Length.asciiRead_scan {bs rest : Bytes} {table : List (String × Length)} {l : Length}
    (htable : ∀ entry ∈ table, ∀ b ∈ code entry, b < 0x80) (h : scan table bs = (l, rest)) :
    AsciiRead rest bs := by
  rcases first_or_none table bs with ⟨before, entry, after, rfl, ⟨more, rfl⟩, hbefore⟩ | hnone
  · rw [scan_of_first ⟨more, rfl⟩ hbefore, List.drop_left] at h
    cases h
    exact .of_append (htable entry (List.mem_append_right _ List.mem_cons_self))
  · rw [scan_of_none hnone] at h
    cases h
    exact .nil

namespace Freestanding

theorem asciiRead_scanAmount {bs rest : Bytes} {amount : Amount}
    (h : scanAmount bs = (amount, rest)) :
    AsciiRead rest bs := by
  cases bs with
  | nil =>
    cases h
    exact .nil
  | cons b bs =>
    by_cases hstar : b = '*'.toUInt8
    · subst hstar
      rw [scanAmount_star] at h
      cases h
      exact .cons (by decide) .nil
    · rw [scanAmount_of_ne hstar] at h
      cases h
      exact asciiRead_scanNumber (Prod.eta _).symm

theorem asciiRead_scanPrecision {bs rest : Bytes} {precision : Option Amount}
    (h : scanPrecision bs = (precision, rest)) : AsciiRead rest bs := by
  cases bs with
  | nil =>
    cases h
    exact .nil
  | cons b bs =>
    by_cases hpoint : b = '.'.toUInt8
    · subst hpoint
      rw [scanPrecision_point] at h
      cases h
      exact .cons (by decide) (asciiRead_scanAmount (Prod.eta _).symm)
    · rw [scanPrecision_of_ne hpoint] at h
      cases h
      exact .nil

theorem Spec.asciiRead_scan {bs rest : Bytes} {spec : Spec} (h : Spec.scan bs = (spec, rest)) :
    AsciiRead rest bs := by
  rcases hflags : Flags.scan flagLetters bs with ⟨flags, bs₁⟩
  rcases hwidth : scanAmount bs₁ with ⟨width, bs₂⟩
  rcases hprecision : scanPrecision bs₂ with ⟨precision, bs₃⟩
  rcases hlength : Length.scan lengths bs₃ with ⟨length, bs₄⟩
  simp only [Spec.scan, hflags, hwidth, hprecision, hlength, Prod.mk.injEq] at h
  obtain ⟨-, rfl⟩ := h
  have htable : ∀ entry ∈ lengths, (Length.code entry).all (fun b => b < 0x80) = true :=
    forall_mem_of_all (by decide)
  have Hflags := Flags.asciiRead_scan (forall_mem_of_all (by decide)) hflags
  have Hlength :=
    Length.asciiRead_scan (fun entry hmem => forall_mem_of_all (htable entry hmem)) hlength
  have Hwidth := Hflags.trans (asciiRead_scanAmount hwidth)
  exact (Hwidth.trans (asciiRead_scanPrecision hprecision)).trans Hlength

/-! ## Whole formats -/

/-- The letters that are not refused. -/
def knownLetters : List Char := "dixXuofFeEgGaAscp%".toList

theorem ofLetter_ne_refused_iff {letter : UInt8} :
    Conversion.ofLetter letter ≠ .refused ↔ Char.ofUInt8 letter ∈ knownLetters := by
  constructor
  · unfold Conversion.ofLetter
    generalize Char.ofUInt8 letter = c
    intro h
    split at h
    any_goals decide
    exact absurd rfl h
  · have hall : ∀ c ∈ knownLetters, Conversion.ofLetter c.toUInt8 ≠ .refused :=
      forall_mem_of_all (by decide)
    intro hmem
    have h := hall _ hmem
    rwa [toUInt8_ofUInt8] at h

theorem ascii_of_known {letter : UInt8} (h : Conversion.ofLetter letter ≠ .refused) :
    letter < 0x80 := by
  have hall : ∀ c ∈ knownLetters, c.toNat < 128 := forall_mem_of_all (by decide)
  exact lt_of_ofUInt8 (hall _ (ofLetter_ne_refused_iff.1 h))

theorem valid_stretches_iff {stretches : List Bytes}
    (h : ∀ spec letter, .directive spec letter ∈ Template.items Spec.scan stretches →
      letter < 0x80) :
    (∀ stretch ∈ stretches, Utf8.Valid stretch) ↔
      ∀ bs, .literal bs ∈ Template.items Spec.scan stretches → Utf8.Valid bs := by
  fun_induction Template.items Spec.scan stretches with
  | case1 => simp
  | case2 stretch spec letter text hscan =>
    have hletter := h spec letter List.mem_cons_self
    have hstretch := (Spec.asciiRead_scan hscan).valid_iff.trans (Utf8.valid_cons_iff hletter)
    simpa using hstretch
  | case3 stretch spec hscan =>
    have hstretch := (Spec.asciiRead_scan hscan).valid_iff
    simpa [Utf8.valid_nil] using hstretch
  | case4 stretch next later spec letter text hscan ih =>
    have hletter := h spec letter List.mem_cons_self
    have hstretch := (Spec.asciiRead_scan hscan).valid_iff.trans (Utf8.valid_cons_iff hletter)
    have hlater := ih fun spec letter hmem => h spec letter (by simp [hmem])
    rw [List.forall_mem_cons, hstretch, hlater]
    simp
  | case5 stretch next later spec hscan ih =>
    have hstretch := (Spec.asciiRead_scan hscan).valid_iff
    have hlater := ih fun spec letter hmem => h spec letter (by simp [hmem])
    rw [List.forall_mem_cons, List.forall_mem_cons, hstretch, hlater]
    simp [Utf8.valid_nil]

theorem valid_intercalate_iff {b : UInt8} (hb : b < 0x80) (stretches : List Bytes) :
    Utf8.Valid ([b].intercalate stretches) ↔ ∀ stretch ∈ stretches, Utf8.Valid stretch := by
  induction stretches with
  | nil => simp [Utf8.valid_nil]
  | cons stretch stretches ih =>
    cases stretches with
    | nil => simp
    | cons next later =>
      rw [List.intercalate_cons_cons, List.append_assoc, List.singleton_append,
        Utf8.valid_append_cons_iff hb, ih, List.forall_mem_cons (l := next :: later)]

theorem valid_format_iff {fmt : Bytes}
    (h : ∀ spec letter, .directive spec letter ∈ Template.parse Spec.scan fmt → letter < 0x80) :
    Utf8.Valid fmt ↔ ∀ bs, .literal bs ∈ Template.parse Spec.scan fmt → Utf8.Valid bs := by
  obtain ⟨stretch, stretches, hsplit⟩ := exists_splitOn_eq_cons percent fmt
  have hparse :
      Template.parse Spec.scan fmt = .literal stretch :: Template.items Spec.scan stretches := by
    rw [Template.parse, hsplit]
  have hstretches : Utf8.Valid fmt ↔ ∀ stretch ∈ fmt.splitOn percent, Utf8.Valid stretch := by
    rw [← valid_intercalate_iff (b := percent) (by decide), List.intercalate_splitOn]
  rw [hparse] at h ⊢
  rw [hstretches, hsplit, List.forall_mem_cons,
    valid_stretches_iff fun spec letter hmem => h spec letter (List.mem_cons_of_mem _ hmem)]
  simp

/-! ## Writes -/

/-- A part that is not refused, whatever its arguments are. -/
def Admissible : Item Spec → Prop
  | .literal bs => Utf8.Valid bs
  | .directive _ letter => Conversion.ofLetter letter ≠ .refused
  | .unfinished _ => False

/-- Parts of a format and arguments for them of which nothing is refused. -/
structure Accepts (parts : List (Item Spec)) (args : List Argument) : Prop where
  admissible : ∀ part ∈ parts, Admissible part
  texts : ¬ HasInvalidText (args.take (kinds parts).length)

variable {part : Item Spec} {parts : List (Item Spec)} {args front : List Argument} {s s' : Supply}

theorem accepts_nil : Accepts [] args :=
  ⟨fun _ hmem => absurd hmem List.not_mem_nil, fun ⟨_, hmem, _⟩ => absurd hmem List.not_mem_nil⟩

theorem accepts_literal_iff {bs : Bytes} :
    Accepts (.literal bs :: parts) args ↔ Utf8.Valid bs ∧ Accepts parts args := by
  constructor
  · intro h
    obtain ⟨hbs, hparts⟩ := List.forall_mem_cons.1 h.admissible
    exact ⟨hbs, hparts, h.texts⟩
  · rintro ⟨hbs, h⟩
    exact ⟨List.forall_mem_cons.2 ⟨hbs, h.admissible⟩, h.texts⟩

theorem accepts_directive_iff {spec : Spec} {letter : UInt8}
    (hletter : Conversion.ofLetter letter ≠ .refused)
    (hfront : front.length = (spec.kinds letter).length) :
    Accepts (.directive spec letter :: parts) (front ++ args) ↔
      ¬ HasInvalidText front ∧ Accepts parts args := by
  have htake : (front ++ args).take (kinds (.directive spec letter :: parts)).length =
      front ++ args.take (kinds parts).length := by
    rw [kinds, if_neg hletter, List.length_append, ← hfront, List.take_length_add_append]
  constructor
  · intro h
    have htexts := h.texts
    rw [htake, hasInvalidText_append, not_or] at htexts
    exact ⟨htexts.1, (List.forall_mem_cons.1 h.admissible).2, htexts.2⟩
  · rintro ⟨htexts, h⟩
    refine ⟨List.forall_mem_cons.2 ⟨hletter, h.admissible⟩, ?_⟩
    rw [htake, hasInvalidText_append, not_or]
    exact ⟨htexts, h.texts⟩

theorem not_accepts (hpart : ¬ Admissible part) : ¬ Accepts (part :: parts) args :=
  fun h => hpart (h.admissible part List.mem_cons_self)

/-- What becomes of a write with arguments that match its format. -/
theorem ending_of_offers (hparts : ∀ part ∈ parts, Ordered part)
    (hoffers : s.Offers (kinds parts)) :
    (runMoves move parts s).ending = .aborted ∨
      Accepts parts s.rest ∧ (runMoves move parts s).ending = .done ∨
      ¬ Accepts parts s.rest ∧ (runMoves move parts s).ending = .failed .refused := by
  induction parts generalizing s with
  | nil => exact .inr (.inl ⟨accepts_nil, rfl⟩)
  | cons part parts ih =>
    obtain ⟨hpart, hlater⟩ := List.forall_mem_cons.1 hparts
    rw [runMoves]
    cases part with
    | literal bs =>
      by_cases hbs : Utf8.Valid bs
      · cases hattempt : literal bs with
        | write text =>
          simp only [accepts_literal_iff, hbs, true_and, move, hattempt]
          exact ih hlater hoffers
        | refuse => exact absurd hattempt (text_uses hbs _).ne_refuse
        | abort =>
          simp only [move, hattempt]
          exact .inl rfl
      · rw [move, literal, text_refused hbs]
        exact .inr (.inr ⟨not_accepts hbs, rfl⟩)
    | unfinished spec => exact .inr (.inr ⟨not_accepts id, rfl⟩)
    | directive spec letter =>
      obtain ⟨attempt, s', front, hperform, hgives, hfront, hrefuse⟩ :=
        asks_perform hpart letter s _ hoffers
      have hlength : front.length = (spec.kinds letter).length := by rw [← hfront, List.length_map]
      simp only [move, hperform]
      by_cases hletter : Conversion.ofLetter letter = .refused
      · rw [hrefuse.2 (.inl hletter)]
        exact .inr (.inr ⟨not_accepts fun h => h hletter, rfl⟩)
      -- the arguments are those that the directive takes, and those of the parts behind it
      rw [kinds, if_neg hletter] at hoffers
      rw [hgives, accepts_directive_iff hletter hlength]
      cases attempt with
      | write text =>
        have htexts : ¬ HasInvalidText front := by
          intro h
          cases hrefuse.2 (.inr h)
        simp only [htexts, not_false_eq_true, true_and]
        exact ih hlater (hgives.offers hfront hoffers)
      | refuse =>
        have htexts : HasInvalidText front := (hrefuse.1 rfl).resolve_left hletter
        exact .inr (.inr ⟨fun h => h.1 htexts, rfl⟩)
      | abort => exact .inl rfl

/-- A format and arguments for it of which nothing is refused. -/
structure Acceptable (fmt : Bytes) (args : List Argument) : Prop where
  /-- The whole format is UTF-8. -/
  utf8 : Utf8.Valid fmt
  /-- The format does not end inside a directive. -/
  finished : ∀ spec, .unfinished spec ∉ Template.parse Spec.scan fmt
  letters : ∀ spec letter, .directive spec letter ∈ Template.parse Spec.scan fmt →
    Char.ofUInt8 letter ∈ knownLetters
  /-- Every text among the arguments that the format takes is UTF-8, up to its end. -/
  texts : ∀ bs, .text bs ∈ args.take (kinds (Template.parse Spec.scan fmt)).length →
    Utf8.Valid bs.untilZero

theorem acceptable_iff {fmt : Bytes} :
    Acceptable fmt args ↔ Accepts (Template.parse Spec.scan fmt) args := by
  -- behind a letter from 0x80 on, a literal text could start inside a character of the format
  have hliterals (hletters : ∀ spec letter, .directive spec letter ∈ Template.parse Spec.scan fmt →
      Conversion.ofLetter letter ≠ .refused) :=
    valid_format_iff fun spec letter hmem => ascii_of_known (hletters spec letter hmem)
  constructor
  · intro h
    have hletters spec letter hmem := ofLetter_ne_refused_iff.2 (h.letters spec letter hmem)
    refine ⟨fun part hmem => ?_, fun ⟨bs, hmem, hbs⟩ => hbs (h.texts bs hmem)⟩
    cases part with
    | literal bs => exact (hliterals hletters).1 h.utf8 bs hmem
    | directive spec letter => exact hletters spec letter hmem
    | unfinished spec => exact h.finished spec hmem
  · intro h
    refine ⟨?_, fun spec hmem => h.admissible _ hmem, fun spec letter hmem => ?_, fun bs hmem => ?_⟩
    · exact (hliterals fun spec letter hmem => h.admissible (.directive spec letter) hmem).2
        fun bs hmem => h.admissible (.literal bs) hmem
    · exact ofLetter_ne_refused_iff.1 (h.admissible (.directive spec letter) hmem)
    · exact Decidable.not_not.1 fun hbs => h.texts ⟨bs, hmem, hbs⟩

theorem Matches.ending {fmt : Bytes} (h : Matches fmt args) :
    (format fmt args).ending = .aborted ∨
      Acceptable fmt args ∧ (format fmt args).ending = .done ∨
      ¬ Acceptable fmt args ∧ (format fmt args).ending = .failed .refused := by
  rw [format_eq, acceptable_iff]
  exact ending_of_offers ordered_of_mem h

end Freestanding

theorem Outcome.result_of_aborted {o : Outcome} (h : o.ending = .aborted) (r : Request)
    (buffer : Bytes) :
    o.result r buffer = .aborted := by
  simp [result, h]

namespace Site

/-- **Refusals.** If the freestanding engine is not aborted on a job whose arguments match the
format, then at every site, whatever its capacity is, the call returns and keeps the error number,
and it succeeds if and only if nothing is refused: the whole format is UTF-8, it does not end
inside a directive, it has no letters but the known ones, and the texts that it takes are UTF-8.
It returns -1 otherwise. -/
theorem freestanding_call_succeeds_iff (fmt : Bytes) (args : List Argument) (errno : Int)
    (hmatches : Freestanding.Matches fmt.untilZero args)
    (hreturns : ∃ c : Site, c.call .freestanding .engine fmt args errno ≠ .aborted) (c : Site) :
    ∃ reply : Reply, c.call .freestanding .engine fmt args errno = .returned reply ∧
      reply.errno = errno ∧ (0 ≤ reply.value ↔ Freestanding.Acceptable fmt.untilZero args) ∧
      (¬ Freestanding.Acceptable fmt.untilZero args → reply.value = -1) := by
  obtain ⟨c', hcall'⟩ := hreturns
  rcases hmatches.ending with haborted | ⟨hacceptable, hdone⟩ | ⟨hnot, hfailed⟩
  · rw [call_eq] at hcall'
    exact absurd (Outcome.result_of_aborted haborted _ _) hcall'
  · refine ⟨_, (call_eq c).trans (Outcome.result_of_done hdone _ _), rfl, ?_, absurd hacceptable⟩
    exact ⟨fun _ => hacceptable, fun _ => Int.natCast_nonneg _⟩
  · refine ⟨_, (call_eq c).trans (Outcome.result_of_failed hfailed _ _), rfl, ?_, fun _ => rfl⟩
    exact ⟨fun hvalue => absurd hvalue (Int.not_le.2 (Int.negSucc_lt_zero 0)),
      fun h => absurd h hnot⟩

/-- A text with a byte that is not UTF-8 behind what the precision keeps, between literal texts of
which one has a character of two bytes. -/
theorem freestanding_call_succeeds_iff_cut_text :
    ∃ reply : Reply,
      (whole [0xa5, 0xa5, 0xa5] []).call .freestanding .engine
          (0xc3 :: 0xa9 :: "%.1s|%%".toList.map Char.toUInt8) [.text [97, 0xff]] 7 =
            .returned reply ∧
      reply.errno = 7 ∧
      (0 ≤ reply.value ↔ Freestanding.Acceptable
        (Bytes.untilZero (0xc3 :: 0xa9 :: "%.1s|%%".toList.map Char.toUInt8)) [.text [97, 0xff]]) ∧
      (¬ Freestanding.Acceptable
        (Bytes.untilZero (0xc3 :: 0xa9 :: "%.1s|%%".toList.map Char.toUInt8)) [.text [97, 0xff]] →
        reply.value = -1) :=
  freestanding_call_succeeds_iff _ _ _ (by decide +kernel) ⟨whole [] [], by decide +kernel⟩ _

end Site

end FormattedOutput
