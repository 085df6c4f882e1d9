import FormattedOutput.Freestanding.Conversion
import FormattedOutput.Hosted.Spec
import FormattedOutput.Proofs.Digits
import FormattedOutput.Proofs.Template

/-! Directives as they are written, and how both format languages read them. `Written` is a
directive up to its letter, with the arguments that its amounts take; both languages read back
from its text what was written (`Written.freestanding_scan` and `Written.hosted_scan`),
whatever follows the letter. -/

namespace FormattedOutput

/-- What holds of each item of a list, decided item by item. -/
theorem forall_mem_of_all {α : Type} {p : α → Prop} [DecidablePred p] {xs : List α}
    (h : xs.all (fun x => decide (p x)) = true) : ∀ x ∈ xs, p x :=
  fun x hx => of_decide_eq_true (List.all_eq_true.1 h x hx)

theorem ofUInt8_toUInt8 {c : Char} (h : c.toNat < 256) : Char.ofUInt8 c.toUInt8 = c := by
  apply Char.ext
  apply UInt32.toNat_inj.1
  calc c.val.toUInt8.toUInt32.toNat = c.val.toNat % 2 ^ 8 := by
        rw [UInt8.toNat_toUInt32, UInt32.toNat_toUInt8]
    _ = c.val.toNat := Nat.mod_eq_of_lt h

theorem toUInt8_ofUInt8 (b : UInt8) : (Char.ofUInt8 b).toUInt8 = b :=
  UInt8.toUInt8_toUInt32 b

theorem toNat_lt_of_isDigit {c : Char} (h : c.isDigit = true) : c.toNat < 256 := by
  simp only [Char.isDigit, Bool.and_eq_true, decide_eq_true_eq, UInt32.le_iff_toNat_le] at h
  exact Nat.lt_of_le_of_lt h.2 (by decide)

theorem mem_decimalDigits {c : Char} (h : c.isDigit = true) : c ∈ decimalDigits := by
  have hall : ∀ n < 58, 48 ≤ n → Char.ofNat n ∈ decimalDigits := by decide
  simp only [Char.isDigit, Bool.and_eq_true, decide_eq_true_eq, UInt32.le_iff_toNat_le] at h
  rw [← Char.ofNat_toNat c]
  exact hall c.toNat (Nat.lt_succ_of_le h.2) h.1

/-- The bytes of a text of characters that have one byte each. -/
def bytesOf (cs : List Char) : Bytes := cs.map Char.toUInt8

@[simp] theorem bytesOf_nil : bytesOf [] = [] := rfl

@[simp] theorem bytesOf_cons (c : Char) (cs : List Char) :
    bytesOf (c :: cs) = c.toUInt8 :: bytesOf cs := rfl

@[simp] theorem bytesOf_append (cs ds : List Char) :
    bytesOf (cs ++ ds) = bytesOf cs ++ bytesOf ds :=
  List.map_append

/-! ## Longest runs -/

/-- Whether a text does not start with a character of some kind. -/
def NoneFirst (p : Char → Bool) (bs : Bytes) : Prop := ∀ b ∈ bs.head?, p (.ofUInt8 b) = false

theorem ne_of_noneFirst {c : Char} {b : UInt8} {bs : Bytes} (h : NoneFirst (· == c) (b :: bs))
    (hc : Char.ofUInt8 c.toUInt8 = c) : b ≠ c.toUInt8 := by
  rintro rfl
  have := h _ rfl
  simp [hc] at this

theorem noneFirst_cons {p : Char → Bool} {c : Char} (hbyte : c.toNat < 256) (hp : p c = false)
    (bs : Bytes) : NoneFirst p (c.toUInt8 :: bs) := by
  rintro b ⟨⟩
  rw [ofUInt8_toUInt8 hbyte]
  exact hp

theorem NoneFirst.mono {p q : Char → Bool} {bs : Bytes} (H : NoneFirst q bs)
    (h : ∀ c, p c = true → q c = true) : NoneFirst p bs := by
  intro b hb
  have hq := H b hb
  cases hp : p (.ofUInt8 b) with
  | false => rfl
  | true => rw [h _ hp] at hq; exact absurd hq (by decide)

section Runs

variable {p : Char → Bool} {cs : List Char} {rest : Bytes}

theorem takeWhile_bytesOf_append (hbyte : ∀ c ∈ cs, c.toNat < 256) (hcs : ∀ c ∈ cs, p c = true)
    (hrest : NoneFirst p rest) :
    (bytesOf cs ++ rest).takeWhile (fun b => p (.ofUInt8 b)) = bytesOf cs := by
  rw [List.takeWhile_append_of_pos]
  · cases rest with
    | nil => simp
    | cons b rest => simp [hrest b rfl]
  · simp only [bytesOf, List.mem_map, forall_exists_index, and_imp, forall_apply_eq_imp_iff₂]
    intro c hc
    rw [ofUInt8_toUInt8 (hbyte c hc)]
    exact hcs c hc

theorem dropWhile_bytesOf_append (hbyte : ∀ c ∈ cs, c.toNat < 256) (hcs : ∀ c ∈ cs, p c = true)
    (hrest : NoneFirst p rest) :
    (bytesOf cs ++ rest).dropWhile (fun b => p (.ofUInt8 b)) = rest := by
  have h := List.takeWhile_append_dropWhile (p := fun b => p (.ofUInt8 b)) (l := bytesOf cs ++ rest)
  rw [takeWhile_bytesOf_append hbyte hcs hrest] at h
  exact List.append_cancel_left h

theorem map_ofUInt8_bytesOf (hbyte : ∀ c ∈ cs, c.toNat < 256) :
    (bytesOf cs).map Char.ofUInt8 = cs := by
  calc (bytesOf cs).map Char.ofUInt8 = cs.map (Char.ofUInt8 ∘ Char.toUInt8) := List.map_map
    _ = cs.map id := List.map_congr_left fun c hc => ofUInt8_toUInt8 (hbyte c hc)
    _ = cs := List.map_id cs

theorem flags_scan_bytesOf {letters : List Char} (hbyte : ∀ c ∈ cs, c.toNat < 256)
    (hcs : ∀ c ∈ cs, c ∈ letters) (hrest : NoneFirst letters.contains rest) :
    Flags.scan letters (bytesOf cs ++ rest) = (cs.foldl Flags.set {}, rest) := by
  have hcs' : ∀ c ∈ cs, letters.contains c = true := fun c hc => by simpa using hcs c hc
  have hfold (f : Flags) : (bytesOf cs).foldl (fun f b => f.set (.ofUInt8 b)) f =
      cs.foldl Flags.set f := by
    rw [← List.foldl_map, map_ofUInt8_bytesOf hbyte]
  simp only [Flags.scan, takeWhile_bytesOf_append hbyte hcs' hrest,
    dropWhile_bytesOf_append hbyte hcs' hrest, hfold]

theorem scanNumber_bytesOf (hcs : ∀ c ∈ cs, c.isDigit = true)
    (hrest : NoneFirst Char.isDigit rest) :
    scanNumber (bytesOf cs ++ rest) = (Nat.ofDigitChars 10 cs 0, rest) := by
  have hbyte : ∀ c ∈ cs, c.toNat < 256 := fun c hc => toNat_lt_of_isDigit (hcs c hc)
  simp only [scanNumber, takeWhile_bytesOf_append hbyte hcs hrest,
    dropWhile_bytesOf_append hbyte hcs hrest, map_ofUInt8_bytesOf hbyte]

theorem scanNumber_of_noneFirst (hrest : NoneFirst Char.isDigit rest) :
    scanNumber rest = (0, rest) :=
  scanNumber_bytesOf (List.forall_mem_nil _) hrest

end Runs

/-! ## Amounts -/

/-- A width or a precision as a format writes it. -/
inductive Size where
  /-- By its digits, if there are any. -/
  | digits (ds : List Char)
  /-- By a star, and an argument. -/
  | star (w : UInt64)
  deriving DecidableEq, Repr

namespace Size

def text : Size → List Char
  | digits ds => ds
  | star _ => ['*']

def args : Size → List Argument
  | digits _ => []
  | star w => [.word w]

def value : Size → Nat
  | digits ds => Nat.ofDigitChars 10 ds 0
  | star w => (Length.int.signed w).toNat

/-- The number that is asked for, also where it is out of range. -/
def asked : Size → Int
  | digits ds => Nat.ofDigitChars 10 ds 0
  | star w => Length.int.signed w

/-- An amount from 0 to 65535. -/
def InRange : Size → Prop
  | digits ds => (∀ c ∈ ds, c.isDigit = true) ∧ Nat.ofDigitChars 10 ds 0 ≤ Freestanding.maxAmount
  | star w => 0 ≤ Length.int.signed w ∧ Length.int.signed w ≤ Freestanding.maxAmount

/-- An amount that a format can write, in range or not. -/
def Readable : Size → Prop
  | digits ds => ∀ c ∈ ds, c.isDigit = true
  | star _ => True

instance : DecidablePred InRange
  | digits ds =>
    decidable_of_iff
      (ds.all Char.isDigit = true ∧ Nat.ofDigitChars 10 ds 0 ≤ Freestanding.maxAmount)
      (by rw [List.all_eq_true, InRange])
  | star _ => inferInstanceAs (Decidable (_ ∧ _))

/-- The amount, 0 if none is written. -/
def amount : Size → Amount
  | digits ds => .given (Nat.ofDigitChars 10 ds 0)
  | star _ => .argument .next

/-- The amount, if one is written. -/
def amount? : Size → Option Amount
  | digits [] => none
  | s => some s.amount

variable {s : Size} {rest : Bytes}

theorem InRange.value_le (H : s.InRange) : s.value ≤ Freestanding.maxAmount := by
  cases s with
  | digits ds => exact H.2
  | star w =>
    simp only [InRange] at H
    simp only [value]
    omega

theorem InRange.readable (H : s.InRange) : s.Readable := by
  cases s with
  | digits ds => exact H.1
  | star w => trivial

theorem freestanding_scanAmount (H : s.Readable) (hdigit : NoneFirst Char.isDigit rest)
    (hstar : NoneFirst (· == '*') rest) :
    Freestanding.scanAmount (bytesOf s.text ++ rest) = (s.amount, rest) := by
  have hnumber {bs : Bytes} (h : NoneFirst (· == '*') bs) :
      Freestanding.scanAmount bs = (.given (scanNumber bs).1, (scanNumber bs).2) := by
    cases bs with
    | nil => rfl
    | cons b bs => exact Freestanding.scanAmount_of_ne (ne_of_noneFirst h (by decide)) bs
  cases s with
  | star w => simp [Freestanding.scanAmount, text, bytesOf, amount]
  | digits ds =>
    rw [text, hnumber, scanNumber_bytesOf H hdigit, amount]
    cases ds with
    | nil => exact hstar
    | cons d ds =>
      have hd := H d List.mem_cons_self
      refine noneFirst_cons (toNat_lt_of_isDigit hd) ?_ _
      rw [beq_eq_false_iff_ne]
      rintro rfl
      simp at hd

theorem supply_asked (s : Size) (all rest : List Argument) :
    Supply.amount ⟨all, s.args ++ rest⟩ s.amount = some (s.asked, ⟨all, rest⟩) := by
  cases s with
  | digits ds => rfl
  | star w => rfl

theorem InRange.asked_eq (H : s.InRange) : s.asked = s.value := by
  cases s with
  | digits ds => rfl
  | star w =>
    simp only [InRange] at H
    simp only [asked, value]
    omega

theorem supply_amount (H : s.InRange) (all rest : List Argument) :
    Supply.amount ⟨all, s.args ++ rest⟩ s.amount = some ((s.value : Int), ⟨all, rest⟩) := by
  rw [supply_asked, H.asked_eq]

/-- The host takes an amount that is not written for none, and then for 0. -/
theorem supply_amount? (H : s.InRange) (all rest : List Argument) :
    ∃ n : Option Int, Supply.amount? ⟨all, s.args ++ rest⟩ s.amount? = some (n, ⟨all, rest⟩) ∧
      n.getD 0 = s.value := by
  by_cases hs : s = digits []
  · subst hs
    exact ⟨none, rfl, rfl⟩
  · have hsome : s.amount? = some s.amount := by
      rcases s with (_ | ⟨d, ds⟩) | w
      · exact absurd rfl hs
      · rfl
      · rfl
    exact ⟨some s.value, by simp [Supply.amount?, hsome, supply_amount H], rfl⟩

theorem hosted_scanStar (hdigit : NoneFirst Char.isDigit rest) :
    Hosted.scanStar rest = (.next, [], rest) := by
  simp [Hosted.scanStar, Hosted.scanSource, Hosted.scanPosition?, scanNumber_of_noneFirst hdigit]

theorem hosted_scanAmount (H : s.InRange) (hdigit : NoneFirst Char.isDigit rest)
    (hstar : NoneFirst (· == '*') rest) :
    Hosted.scanAmount (bytesOf s.text ++ rest) = (s.amount?, [], rest) := by
  cases s with
  | star w => simp [Hosted.scanAmount, text, bytesOf, amount?, amount, hosted_scanStar hdigit]
  | digits ds =>
    obtain ⟨hds, hle⟩ := H
    have hmax : ¬ Hosted.maxInt < Nat.ofDigitChars 10 ds 0 := by
      simp only [Freestanding.maxAmount] at hle
      simp only [Hosted.maxInt]
      omega
    cases ds with
    | nil =>
      cases rest with
      | nil => rfl
      | cons b rest =>
        simp [Hosted.scanAmount, text, bytesOf, amount?, ne_of_noneFirst hstar (by decide),
          hdigit b rfl]
    | cons d ds =>
      have hd := hds d List.mem_cons_self
      have hbyte := ofUInt8_toUInt8 (toNat_lt_of_isDigit hd)
      have hne : d.toUInt8 ≠ '*'.toUInt8 := by
        intro h
        rw [← hbyte, h] at hd
        exact absurd hd (by decide)
      have hscan := scanNumber_bytesOf hds hdigit
      simp only [text, bytesOf, List.map_cons, List.cons_append] at hscan ⊢
      simp [Hosted.scanAmount, hne, hbyte, hd, hscan, hmax, amount?, amount]

end Size

/-- What a format writes for a precision. -/
def precisionText : Option Size → List Char
  | none => []
  | some p => '.' :: p.text

section Precision

variable {precision : Option Size} {rest : Bytes}

theorem freestanding_scanPrecision (H : ∀ p ∈ precision, p.Readable)
    (hdigit : NoneFirst Char.isDigit rest) (hstar : NoneFirst (· == '*') rest)
    (hpoint : NoneFirst (· == '.') rest) :
    Freestanding.scanPrecision (bytesOf (precisionText precision) ++ rest) =
      (precision.map Size.amount, rest) := by
  cases precision with
  | some p =>
    simp [Freestanding.scanPrecision, precisionText,
      p.freestanding_scanAmount (H p rfl) hdigit hstar]
  | none =>
    cases rest with
    | nil => rfl
    | cons b rest =>
      simp [Freestanding.scanPrecision, precisionText, ne_of_noneFirst hpoint (by decide)]

theorem hosted_scanPrecision (H : ∀ p ∈ precision, p.InRange)
    (hdigit : NoneFirst Char.isDigit rest) (hstar : NoneFirst (· == '*') rest)
    (hpoint : NoneFirst (· == '.') rest) :
    Hosted.scanPrecision (bytesOf (precisionText precision) ++ rest) =
      (precision.map Size.amount, [], rest) := by
  cases precision with
  | some p =>
    simp only [Hosted.scanPrecision, precisionText, bytesOf_cons, List.cons_append, if_true,
      p.hosted_scanAmount (H p rfl) hdigit hstar]
    rcases p with (_ | ⟨d, ds⟩) | w <;> rfl
  | none =>
    cases rest with
    | nil => rfl
    | cons b rest =>
      simp [Hosted.scanPrecision, precisionText, ne_of_noneFirst hpoint (by decide)]

end Precision

/-! ## Lengths -/

/-- The conversion letters that both format languages know, and that take an argument. -/
def sharedLetters : List Char :=
  ['d', 'i', 'u', 'o', 'x', 'X', 'f', 'F', 'e', 'E', 'g', 'G', 'a', 'A', 'c', 's', 'p']

/-- What a format writes for a length. -/
def Length.letters : Length → List Char
  | int => []
  | char => ['h', 'h']
  | short => ['h']
  | long => ['l']
  | longLong => ['l', 'l']
  | size => ['z']
  | difference => ['t']
  | maximal => ['j']
  | extended => ['L']

section Lengths

variable {length : Length} {letter : Char}

theorem lengthCodes : 'h'.toUInt8 = 104 ∧ 'l'.toUInt8 = 108 ∧ 'L'.toUInt8 = 76 ∧ 'q'.toUInt8 = 113 ∧
    'z'.toUInt8 = 122 ∧ 'Z'.toUInt8 = 90 ∧ 't'.toUInt8 = 116 ∧ 'j'.toUInt8 = 106 := by
  decide

theorem lengthCode_ne_sharedLetter (h : letter ∈ sharedLetters) :
    ∀ b ∈ ([104, 108, 76, 113, 122, 90, 116, 106] : Bytes), b ≠ letter.toUInt8 := by
  have hall : ∀ c ∈ sharedLetters,
      c.toUInt8 ∉ ([104, 108, 76, 113, 122, 90, 116, 106] : Bytes) := forall_mem_of_all (by decide)
  rintro b hb rfl
  exact hall letter h hb

theorem freestanding_scanLength (hlength : length ∉ [.maximal, .extended])
    (hletter : letter ∈ sharedLetters) (later : Bytes) :
    Length.scan Freestanding.lengths (bytesOf length.letters ++ letter.toUInt8 :: later) =
      (length, letter.toUInt8 :: later) := by
  have hne := lengthCode_ne_sharedLetter hletter
  simp only [List.mem_cons, List.not_mem_nil, or_false, forall_eq_or_imp, forall_eq] at hne
  cases length <;>
    simp_all [Length.scan, Freestanding.lengths, bytesOf, Length.letters, lengthCodes]

theorem hosted_scanLength (hlength : length ∉ [.maximal, .extended])
    (hletter : letter ∈ sharedLetters) (later : Bytes) :
    Length.scan Hosted.lengths (bytesOf length.letters ++ letter.toUInt8 :: later) =
      (length, letter.toUInt8 :: later) := by
  have hne := lengthCode_ne_sharedLetter hletter
  simp only [List.mem_cons, List.not_mem_nil, or_false, forall_eq_or_imp, forall_eq] at hne
  cases length <;>
    simp_all [Length.scan, Hosted.lengths, bytesOf, Length.letters, lengthCodes]

end Lengths

/-! ## Directives -/

/-- A directive as it is written, up to its letter. -/
structure Written where
  flags : List Char
  width : Size
  precision : Option Size
  length : Length
  deriving DecidableEq, Repr

namespace Written

/-- What stands between the percent sign and the letter. -/
def text (d : Written) : List Char :=
  d.flags ++ (d.width.text ++ (precisionText d.precision ++ d.length.letters))

/-- The arguments that the amounts take. -/
def amountArgs (d : Written) : List Argument :=
  d.width.args ++ (d.precision.map Size.args).getD []

/-- Flags that both languages know, amounts in range, and a length that both know. A zero before the
digits of a width counts as a flag. -/
structure WellFormed (d : Written) : Prop where
  flags : ∀ c ∈ d.flags, c ∈ Freestanding.flagLetters
  width : d.width.InRange
  width_head : d.width.text.head? ≠ some '0'
  precision : ∀ p ∈ d.precision, p.InRange
  length : d.length ∉ [.maximal, .extended]

instance (d : Written) : Decidable d.WellFormed :=
  decidable_of_iff (d.flags.all Freestanding.flagLetters.contains = true ∧ d.width.InRange ∧
      d.width.text.head? ≠ some '0' ∧ (∀ p ∈ d.precision, p.InRange) ∧
      d.length ∉ [.maximal, .extended])
    ⟨fun ⟨hf, hw, hz, hp, hl⟩ => ⟨by simpa using hf, hw, hz, hp, hl⟩,
      fun H => ⟨by simpa using H.flags, H.width, H.width_head, H.precision, H.length⟩⟩

/-- A directive that both languages can read, though its amounts may be out of range. -/
structure Readable (d : Written) : Prop where
  flags : ∀ c ∈ d.flags, c ∈ Freestanding.flagLetters
  width : d.width.Readable
  width_head : d.width.text.head? ≠ some '0'
  precision : ∀ p ∈ d.precision, p.Readable
  length : d.length ∉ [.maximal, .extended]

theorem WellFormed.readable {d : Written} (H : d.WellFormed) : d.Readable :=
  ⟨H.flags, H.width.readable, H.width_head, fun p hp => (H.precision p hp).readable, H.length⟩

def flagSet (d : Written) : Flags := d.flags.foldl Flags.set {}

def freestanding (d : Written) : Freestanding.Spec where
  flags := d.flagSet
  width := d.width.amount
  precision := d.precision.map Size.amount
  length := d.length

def hosted (d : Written) : Hosted.Spec where
  source := .next
  flags := d.flagSet
  width := d.width.amount?
  precision := d.precision.map Size.amount
  length := d.length
  marks := []

/-- Whether a text starts with one of some characters. -/
def FirstIn (cs : List Char) (bs : Bytes) : Prop := ∃ c ∈ cs, ∃ later, bs = c.toUInt8 :: later

theorem FirstIn.noneFirst {p : Char → Bool} {cs : List Char} {bs : Bytes} (H : FirstIn cs bs)
    (hcs : cs.all (fun c => c.toNat < 256 && !p c) = true) : NoneFirst p bs := by
  obtain ⟨c, hc, later, rfl⟩ := H
  have hc := List.all_eq_true.1 hcs c hc
  simp only [Bool.and_eq_true, decide_eq_true_eq, Bool.not_eq_true'] at hc
  exact noneFirst_cons hc.1 hc.2 later

variable {d : Written} {letter : Char}

/-- The text from the length on. -/
theorem firstIn_length (hletter : letter ∈ sharedLetters)
    (hlength : d.length ∉ [.maximal, .extended]) (later : Bytes) :
    FirstIn (['h', 'l', 'z', 't'] ++ sharedLetters)
      (bytesOf d.length.letters ++ letter.toUInt8 :: later) := by
  cases hl : d.length with
  | int => exact ⟨letter, List.mem_append_right _ hletter, later, rfl⟩
  | maximal | extended => simp [hl] at hlength
  | char | short => exact ⟨'h', by decide, _, rfl⟩
  | long | longLong => exact ⟨'l', by decide, _, rfl⟩
  | size => exact ⟨'z', by decide, _, rfl⟩
  | difference => exact ⟨'t', by decide, _, rfl⟩

/-- The text from the precision on. -/
theorem firstIn_precision (hletter : letter ∈ sharedLetters)
    (hlength : d.length ∉ [.maximal, .extended]) (later : Bytes) :
    FirstIn (['.', 'h', 'l', 'z', 't'] ++ sharedLetters) (bytesOf (precisionText d.precision) ++
      (bytesOf d.length.letters ++ letter.toUInt8 :: later)) := by
  cases d.precision with
  | some p => exact ⟨'.', by decide, _, rfl⟩
  | none =>
    obtain ⟨c, hc, hfirst⟩ := firstIn_length hletter hlength later
    exact ⟨c, List.mem_cons_of_mem _ hc, hfirst⟩

/-- The text from the width on starts with no flag. -/
theorem noneFirst_width (H : d.Readable) (hletter : letter ∈ sharedLetters) (later : Bytes) :
    NoneFirst Hosted.flagLetters.contains
      (bytesOf d.width.text ++ (bytesOf (precisionText d.precision) ++
      (bytesOf d.length.letters ++ letter.toUInt8 :: later))) := by
  cases hwidth : d.width with
  | star w => exact noneFirst_cons (by decide) (by decide) _
  | digits ds =>
    cases ds with
    | nil => exact (firstIn_precision hletter H.length later).noneFirst (by decide)
    | cons c ds =>
      have hwidth' := H.width
      rw [hwidth] at hwidth'
      have hdigit := hwidth' c List.mem_cons_self
      have hzero := H.width_head
      rw [hwidth] at hzero
      refine noneFirst_cons (toNat_lt_of_isDigit hdigit) ?_ _
      -- of the flags only the zero is a digit
      have hflags : ∀ c ∈ Hosted.flagLetters, c.isDigit = true → c = '0' :=
        forall_mem_of_all (by decide)
      rw [Bool.eq_false_iff]
      intro hmem
      exact hzero (congrArg some (hflags c (by simpa using hmem) hdigit))

theorem flags_scan {letters : List Char} (H : d.Readable)
    (hletters : ∀ c ∈ Freestanding.flagLetters, c ∈ letters) {rest : Bytes}
    (hrest : NoneFirst letters.contains rest) :
    Flags.scan letters (bytesOf d.flags ++ rest) = (d.flagSet, rest) := by
  have hbyte : ∀ c ∈ Freestanding.flagLetters, c.toNat < 256 := forall_mem_of_all (by decide)
  exact flags_scan_bytesOf (fun c hc => hbyte c (H.flags c hc))
    (fun c hc => hletters c (H.flags c hc)) hrest

theorem mem_hostedFlags : ∀ c ∈ Freestanding.flagLetters, c ∈ Hosted.flagLetters :=
  forall_mem_of_all (by decide)

/-- The freestanding language reads a directive back from its text. -/
theorem freestanding_scan (H : d.Readable) (hletter : letter ∈ sharedLetters) (later : Bytes) :
    Freestanding.Spec.scan (bytesOf d.text ++ letter.toUInt8 :: later) =
      (d.freestanding, letter.toUInt8 :: later) := by
  have hlate := firstIn_length hletter H.length later
  have hmiddle := firstIn_precision hletter H.length later
  have hnone := (noneFirst_width H hletter later).mono (p := Freestanding.flagLetters.contains)
    fun c hc => by simpa using mem_hostedFlags c (by simpa using hc)
  have hflags := flags_scan H (fun _ h => h) hnone
  have hwidth := Size.freestanding_scanAmount H.width (hmiddle.noneFirst (by decide))
    (hmiddle.noneFirst (by decide))
  have hprecision := freestanding_scanPrecision H.precision (hlate.noneFirst (by decide))
    (hlate.noneFirst (by decide)) (hlate.noneFirst (by decide))
  simp only [Freestanding.Spec.scan, text, bytesOf_append, List.append_assoc, hflags,
    hwidth, hprecision, freestanding_scanLength H.length hletter, freestanding]

/-! The host looks for a position first. The number of one would end at a dollar sign, which no
part of a directive has. -/

theorem mem_text (H : d.Readable) {c : Char} (hc : c ∈ d.text) :
    c.isDigit = true ∨ c ∈ Freestanding.flagLetters ++ ['.', '*', 'h', 'l', 'z', 't'] := by
  have hsize {s : Size} (hs : s.Readable) (hc : c ∈ s.text) :
      c.isDigit = true ∨ c ∈ Freestanding.flagLetters ++ ['.', '*', 'h', 'l', 'z', 't'] := by
    cases s with
    | star w =>
      obtain rfl := List.mem_singleton.1 hc
      exact .inr (by decide)
    | digits ds => exact .inl (hs c hc)
  simp only [text, List.mem_append] at hc
  rcases hc with hc | hc | hc | hc
  · exact .inr (List.mem_append_left _ (H.flags c hc))
  · exact hsize H.width hc
  · cases hp : d.precision with
    | none => simp [hp, precisionText] at hc
    | some p =>
      rw [hp, precisionText, List.mem_cons] at hc
      rcases hc with rfl | hc
      · exact .inr (by decide)
      · exact hsize (H.precision p hp) hc
  · have := H.length
    cases hl : d.length <;> simp_all [Length.letters]

theorem not_mem_bytesOf_text (H : d.Readable) {b : UInt8} (hb : b = percent ∨ b = '$'.toUInt8) :
    b ∉ bytesOf d.text := by
  have hdigit : ∀ c ∈ decimalDigits,
      c.toUInt8 ≠ percent ∧ c.toUInt8 ≠ '$'.toUInt8 := forall_mem_of_all (by decide)
  have hother : ∀ c ∈ Freestanding.flagLetters ++ ['.', '*', 'h', 'l', 'z', 't'],
      c.toUInt8 ≠ percent ∧ c.toUInt8 ≠ '$'.toUInt8 := forall_mem_of_all (by decide)
  intro hmem
  obtain ⟨c, hc, rfl⟩ := List.mem_map.1 hmem
  have hne := (mem_text H hc).elim (fun h => hdigit c (mem_decimalDigits h)) (hother c)
  exact hb.elim hne.1 hne.2

theorem exists_dropWhile_append_cons {p : UInt8 → Bool} {y : UInt8} (hy : p y = false)
    (xs later : Bytes) :
    ∃ b rest, (xs ++ y :: later).dropWhile p = b :: rest ∧ (b ∈ xs ∨ b = y) := by
  induction xs with
  | nil => exact ⟨y, later, by simp [hy], .inr rfl⟩
  | cons x xs ih =>
    cases hx : p x with
    | true =>
      obtain ⟨b, rest, heq, hb⟩ := ih
      exact ⟨b, rest, by simpa [hx] using heq, hb.imp_left (List.mem_cons_of_mem _)⟩
    | false => exact ⟨x, xs ++ y :: later, by simp [hx], .inl List.mem_cons_self⟩

theorem hosted_scanSource (H : d.Readable) (hletter : letter ∈ sharedLetters) (later : Bytes) :
    Hosted.scanSource (bytesOf d.text ++ letter.toUInt8 :: later) =
      (.next, [], bytesOf d.text ++ letter.toUInt8 :: later) := by
  have hcode : ∀ c ∈ sharedLetters,
      (Char.ofUInt8 c.toUInt8).isDigit = false ∧ c.toUInt8 ≠ '$'.toUInt8 :=
    forall_mem_of_all (by decide)
  obtain ⟨hdigit, hdollar⟩ := hcode letter hletter
  obtain ⟨b, rest, hrest, hb⟩ := exists_dropWhile_append_cons
    (p := fun b => (Char.ofUInt8 b).isDigit) hdigit (bytesOf d.text) later
  have hne : b ≠ '$'.toUInt8 := by
    rintro rfl
    exact hb.elim (not_mem_bytesOf_text H (.inr rfl)) (fun h => hdollar h.symm)
  have hposition : Hosted.scanPosition? (bytesOf d.text ++ letter.toUInt8 :: later) = none := by
    simp only [Hosted.scanPosition?, scanNumber, hrest]
    split
    · next heq =>
      simp only [Prod.mk.injEq, List.cons.injEq] at heq
      rw [if_neg (heq.2.1 ▸ hne)]
    · rfl
  simp [Hosted.scanSource, hposition]

/-- The host reads a directive back from its text. -/
theorem hosted_scan (H : d.WellFormed) (hletter : letter ∈ sharedLetters) (later : Bytes) :
    Hosted.Spec.scan (bytesOf d.text ++ letter.toUInt8 :: later) =
      (d.hosted, letter.toUInt8 :: later) := by
  have hlate := firstIn_length hletter H.length later
  have hmiddle := firstIn_precision hletter H.length later
  have hsource := hosted_scanSource H.readable hletter later
  have hflags := flags_scan H.readable mem_hostedFlags (noneFirst_width H.readable hletter later)
  have hwidth := Size.hosted_scanAmount H.width (hmiddle.noneFirst (by decide))
    (hmiddle.noneFirst (by decide))
  have hprecision := hosted_scanPrecision H.precision (hlate.noneFirst (by decide))
    (hlate.noneFirst (by decide)) (hlate.noneFirst (by decide))
  simp only [text, bytesOf_append, List.append_assoc] at hsource
  simp only [Hosted.Spec.scan, text, bytesOf_append, List.append_assoc, hsource, hflags, hwidth,
    hprecision, hosted_scanLength H.length hletter, hosted, List.append_nil]

/-! ## Both languages at work -/

theorem sharedLetter_ne_percent (hletter : letter ∈ sharedLetters) : letter.toUInt8 ≠ percent := by
  have hall : ∀ c ∈ sharedLetters, c.toUInt8 ≠ percent := forall_mem_of_all (by decide)
  exact hall letter hletter

theorem behind_freestanding (H : d.Readable) (hletter : letter ∈ sharedLetters) (later : Bytes) :
    Template.behind Freestanding.Spec.scan (bytesOf d.text ++ letter.toUInt8 :: later) =
      .directive d.freestanding letter.toUInt8 :: Template.parse Freestanding.Spec.scan later :=
  Template.behind_directive (not_mem_bytesOf_text H (.inl rfl)) (sharedLetter_ne_percent hletter)
    (freestanding_scan H hletter) later

theorem behind_hosted (H : d.WellFormed) (hletter : letter ∈ sharedLetters) (later : Bytes) :
    Template.behind Hosted.Spec.scan (bytesOf d.text ++ letter.toUInt8 :: later) =
      .directive d.hosted letter.toUInt8 :: Template.parse Hosted.Spec.scan later :=
  Template.behind_directive (not_mem_bytesOf_text H.readable (.inl rfl))
    (sharedLetter_ne_percent hletter)
    (hosted_scan H hletter) later

/-- The layout of a directive in the freestanding language. -/
def freestandingLayout (d : Written) : Freestanding.Layout where
  flags := d.flagSet
  width := d.width.value
  precision := d.precision.map fun p => (p.value : Int)
  length := d.length

/-- The layout of a directive in the host's language. -/
def hostedLayout (d : Written) : Hosted.Layout where
  flags := Hosted.Manner.strict.flags false d.flagSet
  width := d.width.value
  precision := d.precision.map Size.value
  length := d.length

theorem supply_precision (H : d.WellFormed) (all rest : List Argument) :
    Supply.amount? ⟨all, (d.precision.map Size.args).getD [] ++ rest⟩
      (d.precision.map Size.amount) =
      some (d.precision.map fun p => (p.value : Int), ⟨all, rest⟩) := by
  cases hp : d.precision with
  | none => rfl
  | some p => simp [Supply.amount?, Size.supply_amount (H.precision p hp)]

theorem freestanding_settle (H : d.WellFormed) (all rest : List Argument) :
    d.freestanding.settle ⟨all, d.amountArgs ++ rest⟩ =
      some (d.freestandingLayout, ⟨all, rest⟩) := by
  simp only [Freestanding.Spec.settle, freestanding, amountArgs, List.append_assoc,
    Size.supply_amount H.width, Option.bind_eq_bind, Option.bind_some, supply_precision H]
  rfl

/-- The layout that a directive asks for in the freestanding language, where its
amounts may be out of range. -/
def askedLayout (d : Written) : Freestanding.Layout where
  flags := d.flagSet
  width := d.width.asked
  precision := d.precision.map Size.asked
  length := d.length

theorem settle_asked (d : Written) (all rest : List Argument) :
    d.freestanding.settle ⟨all, d.amountArgs ++ rest⟩ = some (d.askedLayout, ⟨all, rest⟩) := by
  have hprecision : Supply.amount? ⟨all, (d.precision.map Size.args).getD [] ++ rest⟩
      (d.precision.map Size.amount) = some (d.precision.map Size.asked, ⟨all, rest⟩) := by
    cases d.precision with
    | none => rfl
    | some p => simp [Supply.amount?, Size.supply_asked]
  simp only [Freestanding.Spec.settle, freestanding, amountArgs, List.append_assoc,
    Size.supply_asked, Option.bind_eq_bind, Option.bind_some, hprecision]
  rfl

theorem hosted_settle (H : d.WellFormed) (all rest : List Argument) :
    d.hosted.settle .strict ⟨all, d.amountArgs ++ rest⟩ = some (d.hostedLayout, ⟨all, rest⟩) := by
  obtain ⟨n, hn, hvalue⟩ := Size.supply_amount? H.width all
    ((d.precision.map Size.args).getD [] ++ rest)
  have hnegative : ¬ (d.width.value : Int) < 0 := by omega
  have hprecision : (d.precision.map fun p => (p.value : Int)).bind
      (fun n => if n < 0 then none else some n.toNat) = d.precision.map Size.value := by
    cases d.precision with
    | none => rfl
    | some p => simp [Int.not_lt.2 (Int.natCast_nonneg p.value)]
  simp only [Hosted.Spec.settle, hosted, amountArgs, List.append_assoc, hn, Option.bind_eq_bind,
    Option.bind_some, supply_precision H, hvalue, hprecision, hnegative, Int.natAbs_natCast]
  rfl

end Written

end FormattedOutput
