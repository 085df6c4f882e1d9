import FormattedOutput.Proofs.BoundedWrite
import FormattedOutput.Proofs.Scanning
import FormattedOutput.Proofs.Written

/-! Letters with one meaning. In the freestanding language five letters ask for what `f` asks
for. `respell` puts an `f` in the place of these letters, where they are letters of directives.
Nothing that reads a directive looks at such a byte (`ReadsAlike`), so that a respelled format
has the same parts but for the letters (`parse_respell`), and a write that is done, fails or
aborts does so with either format. -/

namespace FormattedOutput

namespace Freestanding

/-- The letter of fixed notation. -/
def plainLetter : UInt8 := 'f'.toUInt8

/-- The other letters that ask for fixed notation. -/
def otherLetters : Bytes := "FgGaA".toList.map Char.toUInt8

def respellLetter (letter : UInt8) : UInt8 := if letter ∈ otherLetters then plainLetter else letter

/-- A stretch that starts with a directive, with its letter respelled. -/
def respellStretch (stretch : Bytes) : Bytes :=
  match (Spec.scan stretch).2 with
  | [] => stretch
  | letter :: text =>
    stretch.take (stretch.length - (text.length + 1)) ++ respellLetter letter :: text

/-- The stretches behind percent signs, with the letters of directives respelled. If a directive
reaches the next percent sign, what stands behind that sign is literal. -/
def respellStretches : List Bytes → List Bytes
  | [] => []
  | [stretch] => [respellStretch stretch]
  | stretch :: next :: later =>
    match (Spec.scan stretch).2 with
    | [] => stretch :: next :: respellStretches later
    | _ :: _ => respellStretch stretch :: respellStretches (next :: later)

/-- A format with the letters of its directives respelled. -/
def respell (fmt : Bytes) : Bytes :=
  match fmt.splitOn percent with
  | [] => []
  | text :: stretches => [percent].intercalate (text :: respellStretches stretches)

/-- A part of a format with its letter respelled. -/
def respellItem : Item Spec → Item Spec
  | .literal text => .literal text
  | .directive spec letter => .directive spec (respellLetter letter)
  | .unfinished spec => .unfinished spec

/-- Texts that are the same but for an `f` in the place of some letters of fixed notation. -/
inductive Respelled : Bytes → Bytes → Prop where
  | nil : Respelled [] []
  | keep (b : UInt8) {bs bs' : Bytes} (h : Respelled bs bs') : Respelled (b :: bs) (b :: bs')
  | replace {b : UInt8} (hb : b ∈ otherLetters) {bs bs' : Bytes} (h : Respelled bs bs') :
    Respelled (b :: bs) (plainLetter :: bs')

variable {α : Type} {bs bs' front front' text stretch : Bytes} {spec : Spec} {letter : UInt8}

namespace Respelled

theorem refl (bs : Bytes) : Respelled bs bs := by
  induction bs with
  | nil => exact .nil
  | cons b _ ih => exact .keep b ih

theorem append {later later' : Bytes} (h : Respelled bs bs') (h' : Respelled later later') :
    Respelled (bs ++ later) (bs' ++ later') := by
  induction h with
  | nil => exact h'
  | keep b _ ih => exact .keep b ih
  | replace hb _ ih => exact .replace hb ih

theorem length_eq (h : Respelled bs bs') : bs.length = bs'.length := by
  induction h with
  | nil => rfl
  | keep b _ ih => exact congrArg Nat.succ ih
  | replace hb _ ih => exact congrArg Nat.succ ih

theorem drop (h : Respelled bs bs') (n : Nat) : Respelled (bs.drop n) (bs'.drop n) := by
  induction n generalizing bs bs' with
  | zero => exact h
  | succ n ih =>
    cases h with
    | nil => exact .nil
    | keep b h => exact ih h
    | replace hb h => exact ih h

/-- No byte but an `f` is new. -/
theorem not_mem (h : Respelled bs bs') {b : UInt8} (hplain : b ≠ plainLetter) (hmem : b ∉ bs) :
    b ∉ bs' := by
  induction h with
  | nil => exact hmem
  | keep c _ ih =>
    rw [List.mem_cons, not_or] at hmem ⊢
    exact ⟨hmem.1, ih hmem.2⟩
  | replace hc _ ih =>
    rw [List.mem_cons, not_or] at hmem ⊢
    exact ⟨hplain, ih hmem.2⟩

theorem of_letter (letter : UInt8) (text : Bytes) :
    Respelled (letter :: text) (respellLetter letter :: text) := by
  by_cases hletter : letter ∈ otherLetters
  · rw [respellLetter, if_pos hletter]
    exact .replace hletter (refl text)
  · rw [respellLetter, if_neg hletter]
    exact refl _

/-- A run of bytes ends at the letters of fixed notation, and so in the same place. -/
theorem takeWhile_eq {p : UInt8 → Bool} (hp : ∀ b ∈ plainLetter :: otherLetters, p b = false)
    (h : Respelled bs bs') :
    bs'.takeWhile p = bs.takeWhile p ∧ Respelled (bs.dropWhile p) (bs'.dropWhile p) := by
  obtain ⟨hplain, hother⟩ := List.forall_mem_cons.1 hp
  induction h with
  | nil => exact ⟨rfl, .nil⟩
  | @keep b bs bs' h ih =>
    cases hb : p b with
    | true => simpa [hb] using ih
    | false => simpa [hb] using Respelled.keep b h
  | @replace b hb bs bs' h ih => simpa [hplain, hother b hb] using Respelled.replace hb h

theorem prefix_iff {code : Bytes} (hcode : ∀ b ∈ code, b ∉ plainLetter :: otherLetters)
    (h : Respelled bs bs') : code <+: bs' ↔ code <+: bs := by
  induction code generalizing bs bs' with
  | nil => simp
  | cons c code ih =>
    obtain ⟨hc, hcode⟩ := List.forall_mem_cons.1 hcode
    rw [List.mem_cons, not_or] at hc
    cases h with
    | nil => rfl
    | keep b h => rw [List.cons_prefix_cons, List.cons_prefix_cons, ih hcode h]
    | replace hb h =>
      have hne : c ≠ _ := fun heq => hc.2 (heq ▸ hb)
      simp [List.cons_prefix_cons, hc.1, hne]

end Respelled

/-! ## Directives -/

/-- What reads the front of a text reads the same in respelled texts, and leaves respelled texts. -/
def ReadsAlike (scan : Bytes → α × Bytes) : Prop :=
  ∀ {bs bs' : Bytes}, Respelled bs bs' →
    (scan bs').1 = (scan bs).1 ∧ Respelled (scan bs).2 (scan bs').2

theorem readsAlike_flags : ReadsAlike (Flags.scan flagLetters) := by
  intro bs bs' h
  obtain ⟨htake, hdrop⟩ := h.takeWhile_eq (p := fun b => flagLetters.contains (.ofUInt8 b))
    (forall_mem_of_all (by decide))
  exact ⟨by rw [Flags.scan, Flags.scan, htake], hdrop⟩

theorem readsAlike_scanNumber : ReadsAlike scanNumber := by
  intro bs bs' h
  obtain ⟨htake, hdrop⟩ := h.takeWhile_eq (p := fun b => (Char.ofUInt8 b).isDigit)
    (forall_mem_of_all (by decide))
  exact ⟨by rw [scanNumber, scanNumber, htake], hdrop⟩

theorem readsAlike_scanAmount : ReadsAlike scanAmount := by
  intro bs bs' h
  obtain ⟨hnumber, hrest⟩ := readsAlike_scanNumber h
  have hother : ∀ b ∈ otherLetters, b ≠ '*'.toUInt8 := forall_mem_of_all (by decide)
  cases h with
  | nil => exact ⟨rfl, .nil⟩
  | keep b h =>
    by_cases hstar : b = '*'.toUInt8
    · subst hstar
      rw [scanAmount_star, scanAmount_star]
      exact ⟨rfl, h⟩
    · rw [scanAmount_of_ne hstar, scanAmount_of_ne hstar, hnumber]
      exact ⟨rfl, hrest⟩
  | replace hb h =>
    rw [scanAmount_of_ne (hother _ hb), scanAmount_of_ne (by decide), hnumber]
    exact ⟨rfl, hrest⟩

theorem readsAlike_scanPrecision : ReadsAlike scanPrecision := by
  intro bs bs' h
  have hother : ∀ b ∈ otherLetters, b ≠ '.'.toUInt8 := forall_mem_of_all (by decide)
  cases h with
  | nil => exact ⟨rfl, .nil⟩
  | keep b h =>
    by_cases hpoint : b = '.'.toUInt8
    · subst hpoint
      obtain ⟨hamount, hrest⟩ := readsAlike_scanAmount h
      rw [scanPrecision_point, scanPrecision_point, hamount]
      exact ⟨rfl, hrest⟩
    · rw [scanPrecision_of_ne hpoint, scanPrecision_of_ne hpoint]
      exact ⟨rfl, .keep b h⟩
  | replace hb h =>
    rw [scanPrecision_of_ne (hother _ hb), scanPrecision_of_ne (by decide)]
    exact ⟨rfl, .replace hb h⟩

theorem readsAlike_length : ReadsAlike (Length.scan lengths) := by
  intro bs bs' h
  have hcodes : ∀ entry ∈ lengths, ∀ b ∈ Length.code entry, b ∉ plainLetter :: otherLetters := by
    have hall : ∀ entry ∈ lengths,
        (Length.code entry).all (fun b => b ∉ plainLetter :: otherLetters) = true :=
      forall_mem_of_all (by decide)
    exact fun entry hentry => forall_mem_of_all (hall entry hentry)
  have hiff {entry : String × Length} (hentry : entry ∈ lengths) :=
    h.prefix_iff (hcodes entry hentry)
  rcases Length.first_or_none lengths bs with
    ⟨before, entry, after, hlengths, hentry, hbefore⟩ | hnone
  · rw [hlengths] at hiff ⊢
    have hentry' := (hiff (List.mem_append_right _ List.mem_cons_self)).2 hentry
    have hbefore' : ∀ other ∈ before, ¬ Length.code other <+: bs' := fun other hother hpre =>
      hbefore other hother ((hiff (List.mem_append_left _ hother)).1 hpre)
    rw [Length.scan_of_first hentry hbefore, Length.scan_of_first hentry' hbefore']
    exact ⟨rfl, h.drop _⟩
  · rw [Length.scan_of_none hnone, Length.scan_of_none fun entry hentry hpre =>
      hnone entry hentry ((hiff hentry).1 hpre)]
    exact ⟨rfl, h⟩

theorem readsAlike_scan : ReadsAlike Spec.scan := by
  intro bs bs' h
  obtain ⟨hflags, h⟩ := readsAlike_flags h
  obtain ⟨hwidth, h⟩ := readsAlike_scanAmount h
  obtain ⟨hprecision, h⟩ := readsAlike_scanPrecision h
  obtain ⟨hlength, h⟩ := readsAlike_length h
  refine ⟨?_, h⟩
  simp only [Spec.scan, hflags, hwidth, hprecision, hlength]

theorem respelled_stretch (stretch : Bytes) : Respelled stretch (respellStretch stretch) := by
  rcases hscan : Spec.scan stretch with ⟨spec, _ | ⟨letter, text⟩⟩
  · rw [respellStretch, hscan]
    exact .refl stretch
  · obtain ⟨front, rfl⟩ := (Spec.localRead_scan hscan).suffix
    have hfront : (front ++ letter :: text).length - (text.length + 1) = front.length := by simp
    rw [respellStretch, hscan]
    simp only [hfront, List.take_left]
    exact (Respelled.refl front).append (.of_letter letter text)

/-- The letter is respelled, and all else of the directive and the text behind it is as it was. -/
theorem scan_respellStretch (hscan : Spec.scan stretch = (spec, letter :: text)) :
    Spec.scan (respellStretch stretch) = (spec, respellLetter letter :: text) := by
  obtain ⟨hspec, hrest⟩ := readsAlike_scan (respelled_stretch stretch)
  rw [hscan] at hspec hrest
  have hsuffix : respellLetter letter :: text <:+ respellStretch stretch := by
    rw [respellStretch, hscan]
    exact List.suffix_append _ _
  have hsuffix' := (Spec.localRead_scan (Prod.eta (Spec.scan (respellStretch stretch))).symm).suffix
  -- both are rear parts of the stretch, and of one length
  have hlength := hrest.length_eq.symm
  exact Prod.ext hspec
    ((List.suffix_of_suffix_length_le hsuffix' hsuffix (Nat.le_of_eq hlength)).eq_of_length hlength)

/-! ## Formats -/

theorem items_respellStretches (stretches : List Bytes) :
    Template.items Spec.scan (respellStretches stretches) =
      (Template.items Spec.scan stretches).map respellItem := by
  have hpercent : respellLetter percent = percent := by decide
  fun_induction Template.items Spec.scan stretches with
  | case1 => rfl
  | case2 stretch spec letter text hscan =>
    rw [respellStretches, Template.items_of_letter (scan_respellStretch hscan)]
    rfl
  | case3 stretch spec hscan =>
    simp only [respellStretches, respellStretch, hscan, Template.items]
    rfl
  | case4 stretch next later spec letter text hscan ih =>
    have hstretches : respellStretches (stretch :: next :: later) =
        respellStretch stretch :: respellStretches (next :: later) := by
      simp only [respellStretches, hscan]
    rw [hstretches, Template.items_of_letter (scan_respellStretch hscan), ih]
    rfl
  | case5 stretch next later spec hscan ih =>
    have hstretches : respellStretches (stretch :: next :: later) =
        stretch :: next :: respellStretches later := by
      simp only [respellStretches, hscan]
    simp only [hstretches, Template.items, hscan, ih, List.map_cons, respellItem, hpercent]

/-- A stretch is respelled by itself, or stays as it is. -/
theorem exists_of_mem_respellStretches {stretches : List Bytes}
    (h : bs' ∈ respellStretches stretches) :
    ∃ bs ∈ stretches, Respelled bs bs' := by
  fun_induction respellStretches stretches with
  | case1 => cases h
  | case2 stretch =>
    rw [List.mem_singleton.1 h]
    exact ⟨stretch, List.mem_cons_self, respelled_stretch stretch⟩
  | case3 stretch next later _ ih =>
    rcases List.mem_cons.1 h with rfl | h
    · exact ⟨_, List.mem_cons_self, .refl _⟩
    rcases List.mem_cons.1 h with rfl | h
    · exact ⟨_, List.mem_cons_of_mem _ List.mem_cons_self, .refl _⟩
    obtain ⟨bs, hbs, H⟩ := ih h
    exact ⟨bs, List.mem_cons_of_mem _ (List.mem_cons_of_mem _ hbs), H⟩
  | case4 stretch next later _ _ _ ih =>
    rcases List.mem_cons.1 h with rfl | h
    · exact ⟨stretch, List.mem_cons_self, respelled_stretch stretch⟩
    obtain ⟨bs, hbs, H⟩ := ih h
    exact ⟨bs, List.mem_cons_of_mem _ hbs, H⟩

theorem Respelled.join_cons {stretches stretches' : List Bytes} (h : Respelled front front')
    (h' : Respelled ([percent].intercalate (bs :: stretches))
      ([percent].intercalate (bs' :: stretches'))) :
    Respelled ([percent].intercalate (front :: bs :: stretches))
      ([percent].intercalate (front' :: bs' :: stretches')) := by
  rw [List.intercalate_cons_cons, List.intercalate_cons_cons]
  exact (h.append (.refl [percent])).append h'

theorem Respelled.join (h : Respelled front front') (stretches : List Bytes) :
    Respelled ([percent].intercalate (front :: stretches))
      ([percent].intercalate (front' :: respellStretches stretches)) := by
  fun_induction respellStretches stretches generalizing front front' with
  | case1 => simpa using h
  | case2 stretch => exact h.join_cons (by simpa using respelled_stretch stretch)
  | case3 stretch next later _ ih =>
    exact h.join_cons (.join_cons (.refl stretch) (ih (.refl next)))
  | case4 stretch next later _ _ _ ih => exact h.join_cons (ih (respelled_stretch stretch))

theorem respelled_respell (fmt : Bytes) : Respelled fmt (respell fmt) := by
  obtain ⟨text, stretches, hsplit⟩ := exists_splitOn_eq_cons percent fmt
  have hfmt : [percent].intercalate (text :: stretches) = fmt := by
    rw [← hsplit, List.intercalate_splitOn]
  have hjoin := (Respelled.refl text).join stretches
  rw [hfmt] at hjoin
  rw [respell, hsplit]
  exact hjoin

/-- A respelled format has the same parts, but for the letters of its directives. -/
theorem parse_respell (fmt : Bytes) :
    Template.parse Spec.scan (respell fmt) = (Template.parse Spec.scan fmt).map respellItem := by
  obtain ⟨text, stretches, hsplit⟩ := exists_splitOn_eq_cons percent fmt
  have hpercent : ∀ bs ∈ text :: stretches, percent ∉ bs := by
    rw [← hsplit]
    exact fun bs hbs => not_mem_of_mem_splitOn hbs
  obtain ⟨htext, hstretches⟩ := List.forall_mem_cons.1 hpercent
  have hsplit' : (respell fmt).splitOn percent = text :: respellStretches stretches := by
    rw [respell, hsplit]
    refine List.splitOn_intercalate percent (List.forall_mem_cons.2 ⟨htext, fun bs' hbs' => ?_⟩)
      (List.cons_ne_nil _ _)
    obtain ⟨bs, hbs, H⟩ := exists_of_mem_respellStretches hbs'
    exact H.not_mem (by decide) (hstretches bs hbs)
  rw [Template.parse, Template.parse, hsplit, hsplit', List.map_cons, ← items_respellStretches]
  rfl

example : respell ("g%-5.2Gg%%a%lA%".toList.map Char.toUInt8) =
    "g%-5.2fg%%a%lf%".toList.map Char.toUInt8 := by decide +kernel

/-! ## Writes -/

theorem ofLetter_respellLetter (letter : UInt8) :
    Conversion.ofLetter (respellLetter letter) = Conversion.ofLetter letter := by
  have hother : ∀ b ∈ otherLetters, Conversion.ofLetter plainLetter = Conversion.ofLetter b :=
    forall_mem_of_all (by decide)
  by_cases hletter : letter ∈ otherLetters
  · rw [respellLetter, if_pos hletter, hother letter hletter]
  · rw [respellLetter, if_neg hletter]

theorem run_map_respellItem (parts : List (Item Spec)) (s : Supply) :
    run (parts.map respellItem) s = run parts s := by
  induction parts generalizing s with
  | nil => rfl
  | cons part parts ih =>
    cases part with
    | literal text => simp only [List.map_cons, respellItem, run, ih]
    | unfinished spec => rfl
    | directive spec letter =>
      simp only [List.map_cons, respellItem, run, perform, ofLetter_respellLetter, ih]

theorem format_respell (fmt : Bytes) (args : List Argument) :
    format (respell fmt) args = format fmt args := by
  rw [format, format, parse_respell, run_map_respellItem]

theorem untilZero_respell (fmt : Bytes) :
    (respell fmt.untilZero).untilZero = respell fmt.untilZero := by
  have hzero : (0 : UInt8) ∉ fmt.untilZero := by
    intro hmem
    simpa using List.all_eq_true.1 List.all_takeWhile 0 hmem
  have hzero' := (respelled_respell fmt.untilZero).not_mem (by decide) hzero
  have hnonzero : ∀ b ∈ respell fmt.untilZero, decide (b ≠ 0) = true := by
    intro b hb
    exact decide_eq_true fun heq => hzero' (heq ▸ hb)
  rw [Bytes.untilZero, ← List.append_nil (respell fmt.untilZero),
    List.takeWhile_append_of_pos hnonzero]
  rfl

end Freestanding

namespace Site

/-- **One meaning.** A format and the format in which the letters `g`, `G`, `a`, `A` and `F` of its
directives are replaced by `f` are the same texts but for such letters, and have the same parts but
for the letters of directives. At every site and with any arguments, a call of the freestanding
engine comes to the same with both: it aborts with both, or it returns the same value and leaves the
same error number, buffer and cells. -/
theorem freestanding_call_respell (fmt : Bytes) (args : List Argument) (errno : Int) (c : Site) :
    let plain := Freestanding.respell fmt.untilZero
    Freestanding.Respelled fmt.untilZero plain ∧
      Template.parse Freestanding.Spec.scan plain =
        (Template.parse Freestanding.Spec.scan fmt.untilZero).map Freestanding.respellItem ∧
      c.call .freestanding .engine plain args errno =
        c.call .freestanding .engine fmt args errno := by
  intro plain
  refine ⟨Freestanding.respelled_respell _, Freestanding.parse_respell _, ?_⟩
  have houtcome : EntryPoint.outcome .engine .freestanding plain args errno =
      EntryPoint.outcome .engine .freestanding fmt args errno := by
    simp only [EntryPoint.outcome, plain, Freestanding.untilZero_respell,
      Freestanding.format_respell]
  rw [call_eq, call_eq, houtcome]
  rfl

end Site

end FormattedOutput
