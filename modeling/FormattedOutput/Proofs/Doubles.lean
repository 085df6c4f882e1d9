import Mathlib.Data.Nat.Cast.Order.Field
import FormattedOutput.Proofs.DecimalTexts
import FormattedOutput.Proofs.Printing

/-! Doubles in decimal digits. The bits of a double stand for a number by the rules of the
binary64 format (`doubleIn`), and every engine prints that number, correctly rounded to the
places that a directive asks for: what the two format languages write for it are texts that
show it (`Written.prints_fixed`, `Written.prints_scientific`), and differ in how the
exponent is written only. -/

namespace FormattedOutput

open Number

/-! ## The numbers that bits stand for -/

def signBit (bits : UInt64) : Bool := bits.toBitVec.msb

def exponentBits (bits : UInt64) : ℕ := (bits.toBitVec.extractLsb' 52 11).toNat

def fractionBits (bits : UInt64) : ℕ := (bits.toBitVec.extractLsb' 0 52).toNat

/-- The absolute value of a finite double. Without bits in its exponent it is a
subnormal number or zero. -/
def magnitudeIn (bits : UInt64) : ℚ :=
  if exponentBits bits = 0 then fractionBits bits / 2 ^ 52 * 2 ^ (-1022 : ℤ)
  else (1 + fractionBits bits / 2 ^ 52) * 2 ^ ((exponentBits bits : ℤ) - 1023)

/-- The value of a finite double. -/
def doubleIn (bits : UInt64) : ℚ := signed (signBit bits) (magnitudeIn bits)

/-- Not all bits of the exponent are set, as they are for infinity and what is no number. -/
def FiniteBits (bits : UInt64) : Prop := exponentBits bits ≠ 2047

instance (bits : UInt64) : Decidable (FiniteBits bits) := inferInstanceAs (Decidable (_ ≠ _))

theorem exponentBits_eq (bits : UInt64) : exponentBits bits = bits.toNat / 2 ^ 52 % 2 ^ 11 := by
  rw [exponentBits, BitVec.extractLsb'_toNat, Nat.shiftRight_eq_div_pow]
  rfl

theorem fractionBits_eq (bits : UInt64) : fractionBits bits = bits.toNat % 2 ^ 52 := by
  rw [fractionBits, BitVec.extractLsb'_toNat, Nat.shiftRight_zero]
  rfl

theorem signBit_eq (bits : UInt64) : (Binary64.ofBits bits).negative = signBit bits := by
  have hlt := bits.toNat_lt
  rw [signBit, BitVec.msb_eq_decide]
  simp only [Binary64.ofBits, Nat.pow_eq]
  rw [decide_eq_decide]
  have htoNat : bits.toBitVec.toNat = bits.toNat := rfl
  omega

/-- More digits than the parts of any double have. -/
def mostDigits : ℕ := 1100

/-- A fraction whose digits an `int` can count. -/
structure Number.Fraction.Moderate (x : Fraction) : Prop where
  num_lt : x.num < 10 ^ mostDigits
  den_le : x.den ≤ 10 ^ mostDigits

theorem two_pow_le_ten_pow {n : ℕ} (hn : n ≤ mostDigits) : 2 ^ n ≤ 10 ^ mostDigits :=
  le_trans (Nat.pow_le_pow_left (by decide) n) (Nat.pow_le_pow_right (by decide) hn)

theorem moderate_ofBinary {coefficient : ℕ} {exponent : ℤ} (hcoefficient : coefficient < 2 ^ 53)
    (hlow : -1074 ≤ exponent) (hhigh : exponent ≤ 971) :
    (Fraction.ofBinary coefficient exponent).Moderate where
  num_lt := by
    have hdigits : 53 + exponent.toNat ≤ mostDigits := by
      rw [mostDigits]
      omega
    calc coefficient * Nat.pow 2 exponent.toNat < 2 ^ 53 * 2 ^ exponent.toNat :=
          Nat.mul_lt_mul_of_pos_right hcoefficient (Nat.pow_pos (by decide))
      _ = 2 ^ (53 + exponent.toNat) := (pow_add ..).symm
      _ ≤ 10 ^ mostDigits := two_pow_le_ten_pow hdigits
  den_le := by
    have hdigits : (-exponent).toNat ≤ mostDigits := by
      rw [mostDigits]
      omega
    exact two_pow_le_ten_pow hdigits

/-- A fraction of 52 bits, moved before the point. -/
theorem div_mul_zpow (x : ℚ) (exponent : ℤ) :
    x / 2 ^ 52 * 2 ^ (exponent + 52) = x * 2 ^ exponent := by
  have hpow : (2 : ℚ) ^ (52 : ℤ) = 2 ^ 52 := zpow_natCast 2 52
  rw [zpow_add₀ two_ne_zero, hpow, mul_comm _ ((2 : ℚ) ^ 52), ← mul_assoc,
    div_mul_cancel₀ _ (by positivity)]

/-- The coefficient and the exponent that the bits of a finite double are read as. -/
theorem exists_finite {bits : UInt64} (hfinite : FiniteBits bits) :
    ∃ (coefficient : ℕ) (exponent : ℤ),
      (Binary64.ofBits bits).magnitude = .finite coefficient exponent ∧
      (Fraction.ofBinary coefficient exponent).value = magnitudeIn bits ∧
      (Fraction.ofBinary coefficient exponent).Moderate := by
  have hexponent := exponentBits_eq bits
  have hfraction := fractionBits_eq bits
  have hne : exponentBits bits ≠ 2 ^ 11 - 1 := hfinite
  have hexponent_lt : exponentBits bits < 2 ^ 11 := hexponent ▸ Nat.mod_lt _ (by decide)
  have hfraction_lt : fractionBits bits < 2 ^ 52 := hfraction ▸ Nat.mod_lt _ (by decide)
  simp only [Binary64.ofBits, Nat.pow_eq, ← hexponent, ← hfraction, if_neg hne]
  unfold magnitudeIn
  by_cases hzero : exponentBits bits = 0
  · refine ⟨_, _, if_pos hzero, ?_, moderate_ofBinary (by omega) (by omega) (by omega)⟩
    have hshift : (-1022 : ℤ) = -1074 + 52 := by norm_num
    rw [if_pos hzero, Fraction.value_ofBinary, hshift, div_mul_zpow]
  · refine ⟨_, _, if_neg hzero, ?_, moderate_ofBinary (by omega) (by omega) (by omega)⟩
    have hshift : (exponentBits bits : ℤ) - 1023 = exponentBits bits - 1075 + 52 := by ring
    have hone : (1 : ℚ) + fractionBits bits / 2 ^ 52 = (2 ^ 52 + fractionBits bits) / 2 ^ 52 := by
      rw [add_div, div_self (by positivity)]
    rw [if_neg hzero, Fraction.value_ofBinary, hshift, hone, div_mul_zpow, Nat.cast_add,
      Nat.cast_pow, Nat.cast_ofNat]

/-! ## Texts that an `int` can count -/

theorem DecimalText.length_text_le (d : DecimalText) :
    d.text.length ≤ d.whole.length + d.fraction.length + 2 := by
  unfold text
  split <;> split <;> simp <;> omega

theorem DecimalText.ShowsScientific.natAbs_exponent_le {d : DecimalText} {exponent : ℤ}
    {places : ℕ} {x : ℚ}
    (H : d.ShowsScientific exponent places x) {k : ℕ} (hlow : x ≠ 0 → (10 : ℚ) ^ (-k : ℤ) ≤ |x|)
    (hhigh : |x| < 10 ^ k) : exponent.natAbs ≤ k := by
  by_cases hx : x = 0
  · rw [H.zero_exponent hx]
    exact Nat.zero_le k
  have hdecade : (10 : ℚ) ^ (exponent - 1) ≤ |x| ∧ |x| < 10 ^ (exponent + 1) := by
    rcases H.decade hx with ⟨hfrom, hbelow⟩ | ⟨hfrom, hbelow, -⟩
    · exact ⟨le_trans (zpow_le_zpow_right₀ (by norm_num) (by omega)) hfrom, hbelow⟩
    · exact ⟨hfrom, lt_of_lt_of_le hbelow (zpow_le_zpow_right₀ (by norm_num) (by omega))⟩
  have hless : (10 : ℚ) ^ (exponent - 1) < 10 ^ (k : ℤ) := by
    rw [zpow_natCast]
    exact lt_of_le_of_lt hdecade.1 hhigh
  have hmore : (10 : ℚ) ^ (-k : ℤ) < 10 ^ (exponent + 1) := lt_of_le_of_lt (hlow hx) hdecade.2
  rw [zpow_lt_zpow_iff_right₀ (by norm_num)] at hless hmore
  omega

namespace Number.Fraction

variable {x : Fraction}

theorem value_le_num (hden : 0 < x.den) : x.value ≤ x.num := by
  rw [value]
  exact div_le_self (Nat.cast_nonneg _) (by exact_mod_cast hden)

theorem IsBinary.length_whole_le (H : x.IsBinary) (hx : x.Moderate) (minus : Bool) (places : ℕ) :
    (DecimalText.ofPlaces minus (x.fixed places)).whole.length ≤ mostDigits := by
  obtain ⟨kept, zeros, -, -, hdigits⟩ := x.exists_fixed_eq minus places
  have hround : (x.shift kept).round ≤ x.num * 10 ^ kept := by
    refine (halfEven_round_shift H.den_pos kept).le_natCast ?_
    rw [zpow_natCast, Nat.cast_mul, Nat.cast_pow, Nat.cast_ofNat]
    exact mul_le_mul_of_nonneg_right (value_le_num H.den_pos) (by positivity)
  rw [hdigits, DecimalText.whole_ofDigits, Nat.length_toDigits_le_iff (by decide) (by decide)]
  calc (x.shift kept).round / 10 ^ kept ≤ x.num := Nat.div_le_of_le_mul (by rwa [mul_comm])
    _ < 10 ^ mostDigits := hx.num_lt

theorem IsBinary.natAbs_exponent_le (H : x.IsBinary) (hx : x.Moderate) (places : ℕ) :
    (x.scientific places).2.natAbs ≤ mostDigits := by
  have hnonneg : 0 ≤ x.value := div_nonneg (Nat.cast_nonneg _) (Nat.cast_nonneg _)
  refine (H.scientific_shows false places).natAbs_exponent_le (fun hne => ?_) ?_
  · have hnum : 1 ≤ x.num := by
      refine Nat.pos_of_ne_zero fun hzero => hne ?_
      rw [value, hzero, Nat.cast_zero, zero_div, signed_zero]
    have hden : (x.den : ℚ) ≤ 10 ^ mostDigits := by exact_mod_cast hx.den_le
    rw [abs_signed, abs_of_nonneg hnonneg, zpow_neg, zpow_natCast, value, ← one_div]
    exact div_le_div₀ (Nat.cast_nonneg _) (by exact_mod_cast hnum)
      (by exact_mod_cast H.den_pos) hden
  · rw [abs_signed, abs_of_nonneg hnonneg]
    exact lt_of_le_of_lt (value_le_num H.den_pos) (by exact_mod_cast hx.num_lt)

end Number.Fraction

/-! ## Exponents in both languages -/

/-- An exponent in the freestanding language and in the host's. -/
def exponentTexts (power : ℤ) : List ExponentText :=
  [.ofInt 0 none power, .ofInt 2 (some '+') power]

theorem exponentTexts_shows {power : ℤ} (hpower : power.natAbs ≤ mostDigits) {e : ExponentText}
    (he : e ∈ exponentTexts power) : e.Shows power ∧ e.text.length ≤ 5 := by
  have hsmall : power.natAbs < 10 ^ 4 := lt_of_le_of_lt hpower (by decide)
  simp only [exponentTexts, List.mem_cons, List.not_mem_nil, or_false] at he
  rcases he with rfl | rfl
  · exact ⟨ExponentText.ofInt_shows 0 (by decide) power,
      ExponentText.length_text_ofInt_le (by decide) hsmall⟩
  · exact ⟨ExponentText.ofInt_shows 2 (by decide) power,
      ExponentText.length_text_ofInt_le (by decide) hsmall⟩

/-- The texts of a number in scientific notation. -/
def scientificTexts (minus : Bool) (x : Fraction) (places : ℕ) : List (List Char) :=
  (exponentTexts (x.scientific places).2).map fun e =>
    (DecimalText.ofPlaces minus (x.scientific places).1).text ++ 'e' :: e.text

theorem floatDigits_mem_scientificTexts (minus : Bool) (x : Fraction) (places : ℕ) :
    (if minus then ['-'] else []) ++ (Freestanding.floatDigits (.scientific 'e') x places).toList ∈
      scientificTexts minus x places := by
  have htext : (Freestanding.floatDigits (.scientific 'e') x places).toList =
      ((x.scientific places).1.text false).toList ++
        'e' :: (ExponentText.ofInt 0 none (x.scientific places).2).text := by
    simp only [Freestanding.floatDigits, Rope.toList_append, Rope.toList_ofList, ExponentText.text,
      ExponentText.ofInt, List.leftpad, Nat.zero_sub, List.replicate_zero, List.nil_append,
      List.cons_append]
    split <;> rfl
  rw [htext, ← List.append_assoc, ← DecimalText.text_ofPlaces]
  exact List.mem_cons_self

theorem scientificText_mem_scientificTexts (minus : Bool) (x : Fraction) (places : ℕ) :
    (if minus then ['-'] else []) ++ (Hosted.scientificText x places (·.text false)).toList ∈
      scientificTexts minus x places := by
  have htext : (Hosted.scientificText x places (·.text false)).toList =
      ((x.scientific places).1.text false).toList ++
        'e' :: (ExponentText.ofInt 2 (some '+') (x.scientific places).2).text := by
    simp only [Hosted.scientificText, Rope.toList_append, Rope.toList_ofList, ExponentText.text,
      ExponentText.ofInt, Hosted.exponentText]
    split <;> rfl
  rw [htext, ← List.append_assoc, ← DecimalText.text_ofPlaces]
  exact List.mem_cons_of_mem _ List.mem_cons_self

/-! ## What the engines print -/

namespace Written

/-- A directive with a precision and nothing else. -/
def toPlaces (p : Size) : Written :=
  { flags := [], width := .digits [], precision := some p, length := .int }

variable {p : Size} {bits : UInt64} {coefficient : ℕ} {exponent : ℤ}

theorem toPlaces_plain (hp : p.InRange) : (toPlaces p).Plain where
  wellFormed :=
    { flags := List.forall_mem_nil _
      width := ⟨List.forall_mem_nil _, Nat.zero_le _⟩
      width_head := by simp [toPlaces, Size.text]
      precision := by
        rintro q ⟨⟩
        exact hp
      length := by simp [toPlaces] }
  flags := List.forall_mem_nil _

/-- A number without a field is its sign and its digits. -/
theorem toList_field_zero (n : Numeral) :
    (n.field .right 0).toList = n.sign ++ n.marker ++ n.digits.toList := by
  simp [Numeral.field, toList_pad, Numeral.text, Numeral.front]

theorem freestanding_floating (hp : p.InRange) (style : Freestanding.FloatStyle)
    (hfinite : (Binary64.ofBits bits).magnitude = .finite coefficient exponent) :
    ∃ text : Rope Char,
      Freestanding.floating style (toPlaces p).freestandingLayout (.ofBits bits) = .write text ∧
      text.toList = (if signBit bits then ['-'] else []) ++
        (Freestanding.floatDigits style (.ofBinary coefficient exponent) p.value).toList := by
  have hprecision : (toPlaces p).freestandingLayout.precision.getD 6 = (p.value : ℤ) := rfl
  simp only [Freestanding.floating, hfinite, hprecision, Freestanding.require_natCast hp.value_le,
    Int.toNat_natCast]
  refine ⟨_, (Freestanding.signedField_eq rfl _).trans
    (Freestanding.within_natCast (Nat.zero_le _) _), ?_⟩
  refine (toList_field_zero _).trans ?_
  rw [signBit_eq]
  cases signBit bits <;> rfl

theorem hosted_floating (p : Size) (style : Hosted.FloatStyle) (hstyle : style ≠ .hexadecimal)
    (hfinite : (Binary64.ofBits bits).magnitude = .finite coefficient exponent) :
    (Hosted.floating style false (toPlaces p).hostedLayout (.ofBits bits)).toList =
      (if signBit bits then ['-'] else []) ++
        (Hosted.floatText style (toPlaces p).hostedLayout coefficient exponent).toList := by
  have hjustify : Hosted.floatJustify style (toPlaces p).hostedLayout.flags = .right := rfl
  have hwidth (n : ℕ) : (toPlaces p).hostedLayout.widthFor n = 0 :=
    Hosted.widthFor_eq (Nat.zero_le _) n
  simp only [Hosted.floating, hfinite, hjustify, hwidth, if_neg hstyle]
  refine (toList_field_zero _).trans ?_
  rw [signBit_eq]
  cases signBit bits <;> rfl

/-- The letters for decimal digits, and the styles that they ask for in both languages. -/
inductive DecimalStyle : Char → Freestanding.FloatStyle → Hosted.FloatStyle → Prop where
  | fixed : DecimalStyle 'f' .fixed .fixed
  | scientific : DecimalStyle 'e' (.scientific 'e') .scientific

section Perform

variable {letter : Char} {free : Freestanding.FloatStyle} {host : Hosted.FloatStyle}

theorem freestanding_perform (hp : p.InRange) (hstyle : DecimalStyle letter free host)
    (hfinite : (Binary64.ofBits bits).magnitude = .finite coefficient exponent)
    (surplus : List Argument) :
    ∃ text : Rope Char,
      text.toList = (if signBit bits then ['-'] else []) ++
        (Freestanding.floatDigits free (.ofBinary coefficient exponent) p.value).toList ∧
      Freestanding.perform (toPlaces p).freestanding letter.toUInt8
          (.ofList (p.args ++ .double bits :: surplus)) =
        some (.write text, ⟨p.args ++ .double bits :: surplus, surplus⟩) := by
  obtain ⟨text, hfloating, htext⟩ := freestanding_floating hp free hfinite
  refine ⟨text, htext, ?_⟩
  refine Freestanding.perform_of_apply (freestanding_settle (toPlaces_plain hp).wellFormed _ _) ?_
  cases hstyle <;> exact congrArg some hfloating

theorem hosted_perform (hp : p.InRange) (hstyle : DecimalStyle letter free host)
    (hfinite : (Binary64.ofBits bits).magnitude = .finite coefficient exponent)
    (surplus : List Argument) :
    ∃ text : Rope Char,
      text.toList = (if signBit bits then ['-'] else []) ++
        (Hosted.floatText host (toPlaces p).hostedLayout coefficient exponent).toList ∧
      ∀ errno : ℤ, Hosted.perform .strict errno (toPlaces p).hosted (some letter.toUInt8)
          (.ofList (p.args ++ .double bits :: surplus)) =
        some (.writeChars text, ⟨p.args ++ .double bits :: surplus, surplus⟩) := by
  have hdecimal : host ≠ .hexadecimal := by cases hstyle <;> decide
  refine ⟨_, hosted_floating p host hdecimal hfinite, fun errno => ?_⟩
  refine Hosted.perform_of_apply rfl (hosted_settle (toPlaces_plain hp).wellFormed _ _) ?_
  cases hstyle <;> rfl

/-- Every engine prints what its language writes, if an `int` can count it. -/
theorem prints_toPlaces (hp : p.InRange)
    (hfinite : (Binary64.ofBits bits).magnitude = .finite coefficient exponent)
    (hstyle : DecimalStyle letter free host) {texts : List (List Char)}
    (hfree : (if signBit bits then ['-'] else []) ++
      (Freestanding.floatDigits free (.ofBinary coefficient exponent) p.value).toList ∈ texts)
    (hhost : (if signBit bits then ['-'] else []) ++
      (Hosted.floatText host (toPlaces p).hostedLayout coefficient exponent).toList ∈ texts)
    (hmax : ∀ text ∈ texts, 4 * text.length ≤ Hosted.maxInt) (surplus : List Argument)
    (engine : Engine)
    (entry : EntryPoint) {fmt : Bytes} (hfmt : fmt.untilZero = (toPlaces p).format letter) :
    ∃ text ∈ texts, Prints engine entry fmt (p.args ++ .double bits :: surplus) text := by
  have hplain := toPlaces_plain hp
  have hletter : letter ∈ sharedLetters := by cases hstyle <;> decide
  rcases entry.outcome_cases engine fmt (p.args ++ .double bits :: surplus) with houtcome | houtcome
  · obtain ⟨text, htext, hperform⟩ := freestanding_perform hp hstyle hfinite surplus
    refine ⟨text.toList, htext ▸ hfree, prints_of_writes fun errno => ?_⟩
    rw [houtcome]
    exact Freestanding.format_writes hplain.wellFormed.readable hletter hfmt hperform
  · obtain ⟨text, htext, hperform⟩ := hosted_perform hp hstyle hfinite surplus
    have hmem : text.toList ∈ texts := htext ▸ hhost
    have htakes : (Hosted.Conversion.ofLetter letter.toUInt8).takes (toPlaces p).length = true := by
      cases hstyle <;> rfl
    have hlength : (Utf8.encodeRope text).length ≤ Hosted.maxInt := by
      rw [← Rope.length_toList, Utf8.toList_encodeRope]
      exact le_trans (Utf8.length_encode_le _) (hmax _ hmem)
    refine ⟨text.toList, hmem, prints_of_writes fun errno => ?_⟩
    have hwrites :=
      Hosted.format_writes hplain.wellFormed hletter htakes hfmt hlength (hperform errno)
    rwa [houtcome, ← Utf8.toList_encodeRope]

end Perform

/-! What every engine prints for a double whose bits are read as a coefficient and an exponent. -/

theorem prints_fixed (hp : p.InRange)
    (hfinite : (Binary64.ofBits bits).magnitude = .finite coefficient exponent)
    (hmoderate : (Fraction.ofBinary coefficient exponent).Moderate) (surplus : List Argument)
    (engine : Engine)
    (entry : EntryPoint) {fmt : Bytes} (hfmt : fmt.untilZero = (toPlaces p).format 'f') :
    Prints engine entry fmt (p.args ++ .double bits :: surplus)
      (DecimalText.ofPlaces (signBit bits)
        ((Fraction.ofBinary coefficient exponent).fixed p.value)).text := by
  have hbinary := Fraction.isBinary_ofBinary coefficient exponent
  have hwell := (hbinary.fixed_shows (signBit bits) p.value).wellFormed
  have hwhole := hbinary.length_whole_le hmoderate (signBit bits) p.value
  have htext :=
    DecimalText.text_ofPlaces (signBit bits)
      ((Fraction.ofBinary coefficient exponent).fixed p.value)
  rw [htext]
  have hmax : ∀ text ∈ [(if signBit bits then ['-'] else []) ++
      (((Fraction.ofBinary coefficient exponent).fixed p.value).text false).toList],
      4 * text.length ≤ Hosted.maxInt := by
    intro text hmem
    have hlength := DecimalText.length_text_le
      (.ofPlaces (signBit bits) ((Fraction.ofBinary coefficient exponent).fixed p.value))
    have hplaces := hp.value_le
    rw [hwell.fraction_length, htext] at hlength
    rw [List.mem_singleton.1 hmem]
    simp only [mostDigits, Freestanding.maxAmount, Hosted.maxInt] at hwhole hplaces ⊢
    omega
  obtain ⟨text, hmem, hprints⟩ := prints_toPlaces hp hfinite .fixed (List.mem_singleton.2 rfl)
    (List.mem_singleton.2 rfl) hmax surplus engine entry hfmt
  rwa [List.mem_singleton.1 hmem] at hprints

theorem prints_scientific (hp : p.InRange)
    (hfinite : (Binary64.ofBits bits).magnitude = .finite coefficient exponent)
    (hmoderate : (Fraction.ofBinary coefficient exponent).Moderate) (surplus : List Argument)
    (engine : Engine)
    (entry : EntryPoint) {fmt : Bytes} (hfmt : fmt.untilZero = (toPlaces p).format 'e') :
    ∃ e : ExponentText, e.Shows ((Fraction.ofBinary coefficient exponent).scientific p.value).2 ∧
      Prints engine entry fmt (p.args ++ .double bits :: surplus)
        ((DecimalText.ofPlaces (signBit bits)
          ((Fraction.ofBinary coefficient exponent).scientific p.value).1).text ++
          'e' :: e.text) := by
  have hbinary := Fraction.isBinary_ofBinary coefficient exponent
  have hshows := hbinary.scientific_shows (signBit bits) p.value
  have hpower := hbinary.natAbs_exponent_le hmoderate p.value
  have hmax : ∀ text ∈ scientificTexts (signBit bits) (.ofBinary coefficient exponent) p.value,
      4 * text.length ≤ Hosted.maxInt := by
    intro text hmem
    obtain ⟨e, he, rfl⟩ := List.mem_map.1 hmem
    have hlength := DecimalText.length_text_le
      (.ofPlaces (signBit bits) ((Fraction.ofBinary coefficient exponent).scientific p.value).1)
    have hplaces := hp.value_le
    have hexponent := (exponentTexts_shows hpower he).2
    rw [hshows.wellFormed.fraction_length, hshows.one_digit] at hlength
    simp only [Freestanding.maxAmount, Hosted.maxInt, List.length_append,
      List.length_cons] at hplaces ⊢
    omega
  obtain ⟨text, hmem, hprints⟩ := prints_toPlaces hp hfinite .scientific
    (floatDigits_mem_scientificTexts ..) (scientificText_mem_scientificTexts ..) hmax surplus
      engine entry hfmt
  obtain ⟨e, he, rfl⟩ := List.mem_map.1 hmem
  exact ⟨e, (exponentTexts_shows hpower he).1, hprints⟩

end Written

/-- **Doubles are correctly rounded.** On every engine a finite double is printed with its sign: to
some places behind the point, as the nearest multiple of the last place; and in scientific notation,
as the nearest number with one digit before the point and that many behind it, whichever way the
exponent is written. A tie goes to the even last digit. -/
theorem doubles_round_to_nearest (bits : UInt64) (hfinite : FiniteBits bits) (p : Size)
    (hp : p.InRange) (surplus : List Argument) :
    (∃ d : DecimalText, d.minus = signBit bits ∧ d.ShowsFixed p.value (doubleIn bits) ∧
      ∀ (engine : Engine) (entry : EntryPoint) (fmt : Bytes),
        fmt.untilZero = (Written.toPlaces p).format 'f' →
        Prints engine entry fmt (p.args ++ .double bits :: surplus) d.text) ∧
    (∃ (d : DecimalText) (power : ℤ), d.minus = signBit bits ∧
      d.ShowsScientific power p.value (doubleIn bits) ∧
      ∀ (engine : Engine) (entry : EntryPoint) (fmt : Bytes),
        fmt.untilZero = (Written.toPlaces p).format 'e' →
        ∃ e : ExponentText, e.Shows power ∧
          Prints engine entry fmt (p.args ++ .double bits :: surplus)
            (d.text ++ 'e' :: e.text)) := by
  obtain ⟨coefficient, exponent, hmagnitude, hvalue, hmoderate⟩ := exists_finite hfinite
  have hbinary := Fraction.isBinary_ofBinary coefficient exponent
  have hfixed := hbinary.fixed_shows (signBit bits) p.value
  have hscientific := hbinary.scientific_shows (signBit bits) p.value
  rw [hvalue] at hfixed hscientific
  refine ⟨⟨_, rfl, hfixed, fun engine entry fmt hfmt => ?_⟩,
    ⟨_, _, rfl, hscientific, fun engine entry fmt hfmt => ?_⟩⟩
  · exact Written.prints_fixed hp hmagnitude hmoderate surplus engine entry hfmt
  · exact Written.prints_scientific hp hmagnitude hmoderate surplus engine entry hfmt

/-- The negative of one eighth to two places, which is as near to `-0.12` as to `-0.13`. -/
theorem doubles_round_to_nearest_negative_tie :
    FiniteBits 0xbfc0000000000000 ∧ doubleIn 0xbfc0000000000000 = -1 / 8 ∧
    (∃ d : DecimalText, d.minus = true ∧ d.ShowsFixed 2 (-1 / 8) ∧
      ∀ (engine : Engine) (entry : EntryPoint),
        Prints engine entry (Utf8.encode "%.2f".toList) [.double 0xbfc0000000000000] d.text) ∧
    (∃ (d : DecimalText) (power : ℤ), d.minus = true ∧ d.ShowsScientific power 2 (-1 / 8) ∧
      ∀ (engine : Engine) (entry : EntryPoint), ∃ e : ExponentText, e.Shows power ∧
        Prints engine entry (Utf8.encode "%.2e".toList) [.double 0xbfc0000000000000]
          (d.text ++ 'e' :: e.text)) := by
  have hfinite : FiniteBits 0xbfc0000000000000 := by decide
  have hvalue : doubleIn 0xbfc0000000000000 = -1 / 8 := by decide +kernel
  have hsign : signBit 0xbfc0000000000000 = true := by decide
  have hplaces : (Size.digits ['2']).value = 2 := by decide
  obtain ⟨⟨d, hminus, hfixed, hprints⟩, ⟨d', power, hminus', hscientific, hprints'⟩⟩ :=
    doubles_round_to_nearest 0xbfc0000000000000 hfinite (.digits ['2']) (by decide) []
  rw [hvalue, hplaces] at hfixed hscientific
  rw [hsign] at hminus hminus'
  exact ⟨hfinite, hvalue,
    ⟨d, hminus, hfixed, fun engine entry => hprints engine entry _ (by decide +kernel)⟩,
    ⟨d', power, hminus', hscientific,
      fun engine entry => hprints' engine entry _ (by decide +kernel)⟩⟩

end FormattedOutput
