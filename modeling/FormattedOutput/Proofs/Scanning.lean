import FormattedOutput.Freestanding.Spec
import FormattedOutput.Hosted.Spec

/-! Directives with more text behind them. What reads the front of a text leaves a rear part of it,
and if a byte of that part is no digit, then more text behind it changes nothing (`LocalRead`).
Digits alone would not do: those behind a star are a position if a `$` follows. -/

namespace FormattedOutput

variable {bs rest : Bytes}

/-- A byte that is no digit. -/
def NonDigit (b : UInt8) : Prop := (Char.ofUInt8 b).isDigit = false

instance : DecidablePred NonDigit := fun _ => inferInstanceAs (Decidable (_ = _))

def HasNonDigit (bs : Bytes) : Prop := ∃ b ∈ bs, NonDigit b

theorem HasNonDigit.mono {later : Bytes} (h : HasNonDigit rest) (hsuffix : rest <:+ later) :
    HasNonDigit later := by
  obtain ⟨b, hmem, hb⟩ := h
  exact ⟨b, hsuffix.subset hmem, hb⟩

theorem HasNonDigit.ne_nil (h : HasNonDigit bs) : bs ≠ [] := by
  rintro rfl
  obtain ⟨b, hmem, -⟩ := h
  simp at hmem

/-- A text is read up to `rest`, and is read in the same way if more text stands behind it. -/
structure LocalRead (reads : Bytes → Bytes → Prop) (bs rest : Bytes) : Prop where
  suffix : rest <:+ bs
  append : HasNonDigit rest → ∀ later, reads (bs ++ later) (rest ++ later)

/-- What reads directives locally finds the end of one at its letter, if that is no digit. -/
theorem scan_append_of_localRead {σ : Type} {scan : Bytes → σ × Bytes}
    (H : ∀ {bs rest spec}, scan bs = (spec, rest) →
      LocalRead (fun bs rest => scan bs = (spec, rest)) bs rest)
    (bs : Bytes) (spec : σ) (letter : UInt8) (text : Bytes) (hletter : NonDigit letter)
    (h : scan bs = (spec, letter :: text)) (later : Bytes) :
    scan (bs ++ later) = (spec, letter :: (text ++ later)) :=
  (H h).append ⟨letter, List.mem_cons_self, hletter⟩ later

theorem LocalRead.unread {reads : Bytes → Bytes → Prop}
    (h : HasNonDigit bs → ∀ later, reads (bs ++ later) (bs ++ later)) : LocalRead reads bs bs :=
  ⟨List.suffix_rfl, h⟩

theorem takeWhile_append_of_dropWhile {p : UInt8 → Bool} (h : bs.dropWhile p ≠ []) (later : Bytes) :
    (bs ++ later).takeWhile p = bs.takeWhile p ∧
      (bs ++ later).dropWhile p = bs.dropWhile p ++ later := by
  have hlength : (bs.takeWhile p).length ≠ bs.length := by
    intro hall
    have happend := congrArg List.length (bs.takeWhile_append_dropWhile (p := p))
    rw [List.length_append, hall] at happend
    exact h (List.length_eq_zero_iff.1 (by omega))
  rw [List.takeWhile_append, if_neg hlength, List.dropWhile_append, if_neg (by simpa using h)]
  exact ⟨rfl, rfl⟩

/-! ## What all directives have -/

theorem Flags.localRead_scan {letters : List Char} {flags : Flags}
    (h : Flags.scan letters bs = (flags, rest)) :
    LocalRead (fun bs rest => Flags.scan letters bs = (flags, rest)) bs rest := by
  cases h
  refine ⟨List.dropWhile_suffix _, fun hdigit later => ?_⟩
  obtain ⟨htake, hdrop⟩ := takeWhile_append_of_dropWhile hdigit.ne_nil later
  simp only [Flags.scan, htake, hdrop]

theorem HasNonDigit.scanNumber (h : HasNonDigit bs) : HasNonDigit (scanNumber bs).2 := by
  obtain ⟨b, hmem, hb⟩ := h
  rw [← bs.takeWhile_append_dropWhile (p := fun b => (Char.ofUInt8 b).isDigit)] at hmem
  rcases List.mem_append.1 hmem with hmem | hmem
  · have hdigit := List.all_eq_true.1 List.all_takeWhile b hmem
    rw [hb] at hdigit
    cases hdigit
  · exact ⟨b, hmem, hb⟩

theorem suffix_of_scanNumber {n : Nat} (h : scanNumber bs = (n, rest)) : rest <:+ bs := by
  cases h
  exact List.dropWhile_suffix _

theorem scanNumber_append (h : HasNonDigit bs) (later : Bytes) :
    scanNumber (bs ++ later) = ((scanNumber bs).1, (scanNumber bs).2 ++ later) := by
  obtain ⟨htake, hdrop⟩ := takeWhile_append_of_dropWhile h.scanNumber.ne_nil later
  simp only [scanNumber, htake, hdrop]

theorem localRead_scanNumber {n : Nat} (h : scanNumber bs = (n, rest)) :
    LocalRead (fun bs rest => scanNumber bs = (n, rest)) bs rest := by
  refine ⟨suffix_of_scanNumber h, fun hdigit later => ?_⟩
  rw [scanNumber_append (hdigit.mono (suffix_of_scanNumber h)), h]

namespace Length

/-- The bytes that stand for a length in a table. -/
def code (entry : String × Length) : Bytes := entry.1.toList.map Char.toUInt8

/-- The first byte of a length that has two stands for a length by itself. -/
def Stable (table : List (String × Length)) : Prop :=
  ∀ entry ∈ table, 0 < (code entry).length ∧ (code entry).length ≤ 2 ∧
    ∃ first ∈ table, code first = (code entry).take 1

variable {table before after : List (String × Length)} {entry : String × Length} {l : Length}

theorem scan_of_first (hentry : code entry <+: bs)
    (hbefore : ∀ other ∈ before, ¬ code other <+: bs) :
    scan (before ++ entry :: after) bs = (entry.2, bs.drop (code entry).length) := by
  refine Option.getD_eq_iff.2
    (.inl (List.findSome?_eq_some_iff.2 ⟨before, entry, after, rfl, ?_, ?_⟩))
  · exact if_pos (List.isPrefixOf_iff_prefix.2 hentry)
  · exact fun other hmem => if_neg fun h => hbefore other hmem (List.isPrefixOf_iff_prefix.1 h)

theorem scan_of_none (h : ∀ entry ∈ table, ¬ code entry <+: bs) : scan table bs = (.int, bs) := by
  refine Option.getD_eq_iff.2 (.inr ⟨List.findSome?_eq_none_iff.2 fun entry hmem => ?_, rfl⟩)
  exact if_neg fun hpre => h entry hmem (List.isPrefixOf_iff_prefix.1 hpre)

theorem first_or_none (table : List (String × Length)) (bs : Bytes) :
    (∃ before entry after, table = before ++ entry :: after ∧ code entry <+: bs ∧
      ∀ other ∈ before, ¬ code other <+: bs) ∨ ∀ entry ∈ table, ¬ code entry <+: bs := by
  induction table with
  | nil => exact .inr nofun
  | cons entry table ih =>
    by_cases hentry : code entry <+: bs
    · exact .inl ⟨[], entry, table, rfl, hentry, nofun⟩
    · rcases ih with ⟨before, first, after, rfl, hfirst, hbefore⟩ | hnone
      · exact .inl
          ⟨entry :: before, first, after, rfl, hfirst, List.forall_mem_cons.2 ⟨hentry, hbefore⟩⟩
      · exact .inr (List.forall_mem_cons.2 ⟨hentry, hnone⟩)

theorem suffix_of_scan (h : scan table bs = (l, rest)) : rest <:+ bs := by
  rcases first_or_none table bs with ⟨before, entry, after, rfl, hentry, hbefore⟩ | hnone
  · rw [scan_of_first hentry hbefore] at h
    cases h
    exact List.drop_suffix _ _
  · rw [scan_of_none hnone] at h
    cases h
    exact List.suffix_rfl

/-- If one byte is all there is of a text and no length, then it starts no length either. -/
theorem code_isPrefix_append (H : Stable table) (h : scan table bs = (l, rest)) (hrest : rest ≠ [])
    (hentry : entry ∈ table) (later : Bytes) : code entry <+: bs ++ later ↔ code entry <+: bs := by
  refine ⟨fun hpre => ?_, List.prefix_append_of_prefix⟩
  by_cases hlength : (code entry).length ≤ bs.length
  · exact List.prefix_of_prefix_length_le hpre (List.prefix_append ..) hlength
  · obtain ⟨hpos, htwo, first, hfirst, htake⟩ := H entry hentry
    have hne : bs ≠ [] := fun hnil => hrest (List.suffix_nil.1 (hnil ▸ suffix_of_scan h))
    obtain ⟨b, rfl⟩ : ∃ b, bs = [b] := by
      have := List.length_pos_iff.2 hne
      exact List.length_eq_one_iff.1 (by omega)
    -- the byte itself is a length, so that nothing is left behind it
    have hcode : code first = [b] := by
      obtain ⟨more, hmore⟩ := hpre
      rw [htake, ← List.take_append_of_le_length hpos, hmore]
      rfl
    rcases first_or_none table [b] with ⟨before, other, after, rfl, hother, hbefore⟩ | hnone
    · rw [scan_of_first hother hbefore] at h
      cases h
      have := (H other (List.mem_append_right _ List.mem_cons_self)).1
      exact absurd (List.drop_eq_nil_of_le this) hrest
    · exact absurd (hcode ▸ List.prefix_rfl) (hnone first hfirst)

theorem localRead_scan (H : Stable table) (h : scan table bs = (l, rest)) :
    LocalRead (fun bs rest => scan table bs = (l, rest)) bs rest := by
  refine ⟨suffix_of_scan h, fun hdigit later => ?_⟩
  have hcode {entry : String × Length} (hmem : entry ∈ table) :=
    code_isPrefix_append H h hdigit.ne_nil hmem later
  rcases first_or_none table bs with ⟨before, entry, after, rfl, hentry, hbefore⟩ | hnone
  · have hmem : entry ∈ before ++ entry :: after := List.mem_append_right _ List.mem_cons_self
    rw [scan_of_first hentry hbefore] at h
    cases h
    rw [scan_of_first ((hcode hmem).2 hentry) fun other hother =>
      mt (hcode (List.mem_append_left _ hother)).1 (hbefore other hother),
      List.drop_append_of_le_length hentry.length_le]
  · rw [scan_of_none hnone] at h
    cases h
    exact scan_of_none fun entry hmem => mt (hcode hmem).1 (hnone entry hmem)

end Length

/-! ## The freestanding language -/

namespace Freestanding

theorem stable_lengths : Length.Stable lengths := by
  unfold Length.Stable
  decide

theorem localRead_scanAmount {amount : Amount} (h : scanAmount bs = (amount, rest)) :
    LocalRead (fun bs rest => scanAmount bs = (amount, rest)) bs rest := by
  cases bs with
  | nil =>
    cases h
    exact .unread fun hdigit => absurd rfl hdigit.ne_nil
  | cons b bs =>
    by_cases hstar : b = '*'.toUInt8
    · subst hstar
      rw [scanAmount_star] at h
      cases h
      exact ⟨List.suffix_cons _ _, fun _ later => scanAmount_star _⟩
    · rw [scanAmount_of_ne hstar] at h
      cases h
      have H := localRead_scanNumber (Prod.eta (scanNumber (b :: bs))).symm
      refine ⟨H.suffix, fun hdigit later => ?_⟩
      have happend := H.append hdigit later
      rw [List.cons_append] at happend ⊢
      rw [scanAmount_of_ne hstar, happend]

theorem localRead_scanPrecision {precision : Option Amount}
    (h : scanPrecision bs = (precision, rest)) :
    LocalRead (fun bs rest => scanPrecision bs = (precision, rest)) bs rest := by
  cases bs with
  | nil =>
    cases h
    exact .unread fun hdigit => absurd rfl hdigit.ne_nil
  | cons b bs =>
    by_cases hpoint : b = '.'.toUInt8
    · subst hpoint
      rw [scanPrecision_point] at h
      cases h
      have H := localRead_scanAmount (Prod.eta (scanAmount bs)).symm
      refine ⟨H.suffix.trans (List.suffix_cons _ _), fun hdigit later => ?_⟩
      rw [List.cons_append, scanPrecision_point, H.append hdigit later]
    · rw [scanPrecision_of_ne hpoint] at h
      cases h
      exact .unread fun _ later => scanPrecision_of_ne hpoint _

theorem Spec.localRead_scan {spec : Spec} (h : Spec.scan bs = (spec, rest)) :
    LocalRead (fun bs rest => Spec.scan bs = (spec, rest)) bs rest := by
  rcases hflags : Flags.scan flagLetters bs with ⟨flags, bs₁⟩
  rcases hwidth : scanAmount bs₁ with ⟨width, bs₂⟩
  rcases hprecision : scanPrecision bs₂ with ⟨precision, bs₃⟩
  rcases hlength : Length.scan lengths bs₃ with ⟨length, bs₄⟩
  simp only [Spec.scan, hflags, hwidth, hprecision, hlength, Prod.mk.injEq] at h
  obtain ⟨rfl, rfl⟩ := h
  have Hflags := Flags.localRead_scan hflags
  have Hwidth := localRead_scanAmount hwidth
  have Hprecision := localRead_scanPrecision hprecision
  have Hlength := Length.localRead_scan stable_lengths hlength
  have hsuffix₃ := Hlength.suffix
  have hsuffix₂ := hsuffix₃.trans Hprecision.suffix
  have hsuffix₁ := hsuffix₂.trans Hwidth.suffix
  refine ⟨hsuffix₁.trans Hflags.suffix, fun hdigit later => ?_⟩
  simp only [Spec.scan, Hflags.append (hdigit.mono hsuffix₁), Hwidth.append (hdigit.mono hsuffix₂),
    Hprecision.append (hdigit.mono hsuffix₃), Hlength.append hdigit]

end Freestanding

/-! ## The host's language -/

namespace Hosted

theorem stable_lengths : Length.Stable lengths := by
  unfold Length.Stable
  decide

variable {source : Source} {marks : List Mark}

theorem scanPosition?_append (h : HasNonDigit bs) (later : Bytes) :
    scanPosition? (bs ++ later) =
      (scanPosition? bs).map fun (index, rest) => (index, rest ++ later) := by
  have hrest := h.scanNumber.ne_nil
  unfold scanPosition?
  rw [scanNumber_append h]
  rcases hnumber : scanNumber bs with ⟨n, rest⟩
  rw [hnumber] at hrest
  match n, rest with
  | 0, _ => rfl
  | index + 1, [] => exact absurd rfl hrest
  | index + 1, b :: rest =>
    by_cases hb : b = '$'.toUInt8
    · simp [hb]
    · simp [hb]

theorem suffix_of_scanPosition? {index : Nat} (h : scanPosition? bs = some (index, rest)) :
    '$'.toUInt8 :: rest <:+ bs := by
  unfold scanPosition? at h
  split at h
  · next hnumber =>
    split at h
    · next hb =>
      cases h
      exact hb ▸ suffix_of_scanNumber hnumber
    · cases h
  · cases h

theorem localRead_scanSource (h : scanSource bs = (source, marks, rest)) :
    LocalRead (fun bs rest => scanSource bs = (source, marks, rest)) bs rest := by
  unfold scanSource at h
  split at h
  · next hposition =>
    cases h
    exact .unread fun hdigit later => by
      rw [scanSource, scanPosition?_append hdigit, hposition, Option.map_none]
  · next index rest' hposition =>
    have hsuffix := suffix_of_scanPosition? hposition
    have hdigit : HasNonDigit bs := ⟨_, hsuffix.subset List.mem_cons_self, by decide⟩
    have hrest : rest = rest' := by split at h <;> cases h <;> rfl
    subst hrest
    refine ⟨(List.suffix_cons _ _).trans hsuffix, fun _ later => ?_⟩
    rw [scanSource, scanPosition?_append hdigit, hposition, Option.map_some]
    split at h <;> cases h <;> simp [*]

theorem localRead_scanStar (h : scanStar bs = (source, marks, rest)) :
    LocalRead (fun bs rest => scanStar bs = (source, marks, rest)) bs rest := by
  by_cases hlarge : maxInt < (scanNumber bs).1
  · simp only [scanStar, if_pos hlarge, Prod.mk.injEq] at h
    obtain ⟨rfl, rfl, rfl⟩ := h
    exact .unread fun hdigit later => by rw [scanStar, scanNumber_append hdigit, if_pos hlarge]
  · simp only [scanStar, if_neg hlarge] at h
    have H := localRead_scanSource h
    refine ⟨H.suffix, fun hdigit later => ?_⟩
    rw [scanStar, scanNumber_append (hdigit.mono H.suffix), if_neg hlarge, H.append hdigit]

theorem localRead_scanAmount {amount : Option Amount} (h : scanAmount bs = (amount, marks, rest)) :
    LocalRead (fun bs rest => scanAmount bs = (amount, marks, rest)) bs rest := by
  cases bs with
  | nil =>
    cases h
    exact .unread fun hdigit => absurd rfl hdigit.ne_nil
  | cons b bs =>
    by_cases hstar : b = '*'.toUInt8
    · rcases hsource : scanStar bs with ⟨source, marks', rest'⟩
      simp only [scanAmount, if_pos hstar, hsource, Prod.mk.injEq] at h
      obtain ⟨rfl, rfl, rfl⟩ := h
      have H := localRead_scanStar hsource
      refine ⟨H.suffix.trans (List.suffix_cons b bs), fun hdigit later => ?_⟩
      simp only [List.cons_append, scanAmount, if_pos hstar, H.append hdigit later]
    · by_cases hb : (Char.ofUInt8 b).isDigit
      · rcases hnumber : scanNumber (b :: bs) with ⟨n, rest'⟩
        have H := localRead_scanNumber hnumber
        simp only [scanAmount, if_neg hstar, if_pos hb, hnumber] at h
        have hrest : rest = rest' := by split at h <;> cases h <;> rfl
        subst hrest
        refine ⟨H.suffix, fun hdigit later => ?_⟩
        have happend := H.append hdigit later
        rw [List.cons_append] at happend ⊢
        simp only [scanAmount, if_neg hstar, if_pos hb, happend]
        split at h <;> cases h <;> simp [*]
      · simp only [scanAmount, if_neg hstar, if_neg hb, Prod.mk.injEq] at h
        obtain ⟨rfl, rfl, rfl⟩ := h
        exact .unread fun _ later => by simp [scanAmount, hstar, hb]

theorem localRead_scanPrecision {precision : Option Amount}
    (h : scanPrecision bs = (precision, marks, rest)) :
    LocalRead (fun bs rest => scanPrecision bs = (precision, marks, rest)) bs rest := by
  cases bs with
  | nil =>
    cases h
    exact .unread fun hdigit => absurd rfl hdigit.ne_nil
  | cons b bs =>
    by_cases hpoint : b = '.'.toUInt8
    · rcases hamount : scanAmount bs with ⟨amount, marks', rest'⟩
      have H := localRead_scanAmount hamount
      simp only [scanPrecision, if_pos hpoint, hamount] at h
      have hrest : rest = rest' := by split at h <;> simp_all
      subst hrest
      refine ⟨H.suffix.trans (List.suffix_cons b bs), fun hdigit later => ?_⟩
      simp only [List.cons_append, scanPrecision, if_pos hpoint, H.append hdigit later]
      split at h <;> cases h <;> simp_all
    · simp only [scanPrecision, if_neg hpoint, Prod.mk.injEq] at h
      obtain ⟨rfl, rfl, rfl⟩ := h
      exact .unread fun _ later => by simp [scanPrecision, hpoint]

theorem Spec.localRead_scan {spec : Spec} (h : Spec.scan bs = (spec, rest)) :
    LocalRead (fun bs rest => Spec.scan bs = (spec, rest)) bs rest := by
  rcases hsource : scanSource bs with ⟨source, sourceMarks, bs₁⟩
  rcases hflags : Flags.scan flagLetters bs₁ with ⟨flags, bs₂⟩
  rcases hwidth : scanAmount bs₂ with ⟨width, widthMarks, bs₃⟩
  rcases hprecision : scanPrecision bs₃ with ⟨precision, precisionMarks, bs₄⟩
  rcases hlength : Length.scan lengths bs₄ with ⟨length, bs₅⟩
  simp only [Spec.scan, hsource, hflags, hwidth, hprecision, hlength, Prod.mk.injEq] at h
  obtain ⟨rfl, rfl⟩ := h
  have Hsource := localRead_scanSource hsource
  have Hflags := Flags.localRead_scan hflags
  have Hwidth := localRead_scanAmount hwidth
  have Hprecision := localRead_scanPrecision hprecision
  have Hlength := Length.localRead_scan stable_lengths hlength
  have hsuffix₄ := Hlength.suffix
  have hsuffix₃ := hsuffix₄.trans Hprecision.suffix
  have hsuffix₂ := hsuffix₃.trans Hwidth.suffix
  have hsuffix₁ := hsuffix₂.trans Hflags.suffix
  refine ⟨hsuffix₁.trans Hsource.suffix, fun hdigit later => ?_⟩
  simp only [Spec.scan, Hsource.append (hdigit.mono hsuffix₁), Hflags.append (hdigit.mono hsuffix₂),
    Hwidth.append (hdigit.mono hsuffix₃), Hprecision.append (hdigit.mono hsuffix₄),
    Hlength.append hdigit]

end Hosted

end FormattedOutput
