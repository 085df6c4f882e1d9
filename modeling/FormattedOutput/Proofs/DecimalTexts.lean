import Mathlib.Algebra.Order.Ring.Abs
import FormattedOutput.Proofs.Digits
import FormattedOutput.Proofs.Rounding
import FormattedOutput.Proofs.Written

/-! Decimal numbers as they are written. `DecimalText` has the parts of a text and the number that
they stand for, and `ShowsFixed` and `ShowsScientific` say that a text shows a number to some
places. The digits that are kept for a binary fraction, with the zeros that are counted behind them,
do so (`Fraction.IsBinary.fixed_shows`, `Fraction.IsBinary.scientific_shows`). -/

namespace FormattedOutput

open Number

/-! ## Digits -/

theorem numberOf_append (alphabet ds es : List Char) :
    numberOf alphabet (ds ++ es) =
      numberOf alphabet ds * alphabet.length ^ es.length + numberOf alphabet es := by
  induction es using List.reverseRecOn with
  | nil => simp [numberOf]
  | append_singleton es c ih =>
    rw [← List.append_assoc, numberOf_concat, numberOf_concat, ih, List.length_append,
      List.length_singleton, pow_succ]
    ring

theorem numberOf_replicate_zero (count : ℕ) :
    numberOf decimalDigits (List.replicate count '0') = 0 := by
  have hzeros := spells_decimal.numberOf_zeros_append count []
  rwa [List.append_nil] at hzeros

theorem mem_toDigits {n : ℕ} {c : Char} (hc : c ∈ Nat.toDigits 10 n) : c ∈ decimalDigits := by
  rw [← List.map_id (Nat.toDigits 10 n)] at hc
  exact spells_decimal.mem_of_mem_map hc

theorem numberOf_toDigits (n : ℕ) : numberOf decimalDigits (Nat.toDigits 10 n) = n := by
  have hnumber := spells_decimal.numberOf_map n
  rwa [List.map_id] at hnumber

theorem numberOf_leftpad (width n : ℕ) :
    numberOf decimalDigits ((Nat.toDigits 10 n).leftpad width '0') = n := by
  rw [List.leftpad, spells_decimal.numberOf_zeros_append, numberOf_toDigits]

theorem mem_leftpad {width n : ℕ} {c : Char} (hc : c ∈ (Nat.toDigits 10 n).leftpad width '0') :
    c ∈ decimalDigits := by
  rw [List.leftpad, List.mem_append] at hc
  rcases hc with hc | hc
  · rw [List.eq_of_mem_replicate hc]
    exact spells_decimal.zero_mem
  · exact mem_toDigits hc

/-- Digits end in an even one if their number is even. -/
theorem exists_even_last {ds : List Char} (hne : ds ≠ []) (hds : ∀ c ∈ ds, c ∈ decimalDigits)
    (heven : Even (numberOf decimalDigits ds)) :
    ∃ c ∈ ['0', '2', '4', '6', '8'], ds.getLast? = some c := by
  have hall : ∀ c ∈ decimalDigits, decimalDigits.idxOf c % 2 = 0 → c ∈ ['0', '2', '4', '6', '8'] :=
    forall_mem_of_all (by decide)
  have hlast := hds _ (List.getLast_mem hne)
  refine ⟨ds.getLast hne, hall _ hlast ?_, List.getLast?_eq_some_getLast hne⟩
  have hlength : decimalDigits.length = 10 := rfl
  rw [← List.dropLast_append_getLast hne, numberOf_concat, hlength, Nat.even_iff] at heven
  omega

/-! ## Texts -/

/-- A decimal number in the parts that it is written in. -/
structure DecimalText where
  minus : Bool
  whole : List Char
  fraction : List Char
  deriving DecidableEq, Repr

/-- A number, or its negative. -/
def signed (minus : Bool) (x : ℚ) : ℚ := if minus then -x else x

theorem signed_zero (minus : Bool) : signed minus 0 = 0 := by
  cases minus
  · rfl
  · exact neg_zero

theorem abs_signed (minus : Bool) (x : ℚ) : |signed minus x| = |x| := by
  cases minus
  · rfl
  · exact abs_neg x

theorem signed_mul (minus : Bool) (x y : ℚ) : signed minus x * y = signed minus (x * y) := by
  cases minus
  · rfl
  · exact neg_mul x y

namespace DecimalText

/-- The digits of a number. -/
def digits (d : DecimalText) : List Char := d.whole ++ d.fraction

/-- A number without digits behind its point is written without the point. -/
def text (d : DecimalText) : List Char :=
  (if d.minus then ['-'] else []) ++ (d.whole ++ if d.fraction = [] then [] else '.' :: d.fraction)

/-- The number that a text stands for. -/
def value (d : DecimalText) : ℚ :=
  signed d.minus (numberOf decimalDigits d.digits / 10 ^ d.fraction.length)

/-- The last digit is even. -/
def EndsEven (d : DecimalText) : Prop := ∃ c ∈ ['0', '2', '4', '6', '8'], d.digits.getLast? = some c

/-- Decimal digits, as many behind the point as there are places, and no zero too many before it. -/
structure WellFormed (d : DecimalText) (places : ℕ) : Prop where
  whole_ne_nil : d.whole ≠ []
  digits_mem : ∀ c ∈ d.digits, c ∈ decimalDigits
  head_zero : d.whole.head? = some '0' → d.whole = ['0']
  fraction_length : d.fraction.length = places

theorem WellFormed.endsEven {d : DecimalText} {places : ℕ} (H : d.WellFormed places)
    (heven : Even (numberOf decimalDigits d.digits)) : d.EndsEven :=
  exists_even_last (List.append_ne_nil_of_left_ne_nil H.whole_ne_nil _) H.digits_mem heven

/-- A text shows a number to some places behind the point: the nearest multiple of the last place,
and if there are two, the one with an even last digit. -/
structure ShowsFixed (d : DecimalText) (places : ℕ) (x : ℚ) : Prop where
  wellFormed : d.WellFormed places
  nearest : Nearest (fixedGrid places) x d.value d.EndsEven

/-- A text and an exponent show a number to some places behind its first digit. The exponent is that
of the decade of the number, or the next one if rounding carries into a new digit. The digits are a
one and zeros then, and without places the zero is not seen that makes the last digit even. -/
structure ShowsScientific (d : DecimalText) (exponent : ℤ) (places : ℕ) (x : ℚ) : Prop where
  wellFormed : d.WellFormed places
  one_digit : d.whole.length = 1
  zero_iff : d.whole = ['0'] ↔ x = 0
  zero_exponent : x = 0 → exponent = 0
  decade : x ≠ 0 →
    (10 : ℚ) ^ exponent ≤ |x| ∧ |x| < 10 ^ (exponent + 1) ∨
    (10 : ℚ) ^ (exponent - 1) ≤ |x| ∧ |x| < 10 ^ exponent ∧ |d.value| = 1
  nearest : Nearest (scientificGrid places) x (d.value * 10 ^ exponent)
    (d.EndsEven ∨ places = 0 ∧ |x| < 10 ^ exponent)

end DecimalText

/-- An exponent as it is written: its sign, if there is one, and its digits. -/
structure ExponentText where
  sign : Option Char
  digits : List Char
  deriving DecidableEq, Repr

namespace ExponentText

def text (e : ExponentText) : List Char := e.sign.toList ++ e.digits

/-- A text shows an exponent. One that is not negative may go without a sign. -/
structure Shows (e : ExponentText) (exponent : ℤ) : Prop where
  sign_mem : e.sign ∈ [none, some '-', some '+']
  digits_ne_nil : e.digits ≠ []
  digits_mem : ∀ c ∈ e.digits, c ∈ decimalDigits
  value_eq : signedNumberOf decimalDigits e.sign e.digits = exponent

/-- An exponent with a least number of digits, and some sign or none if it is not negative. -/
def ofInt (least : ℕ) (positive : Option Char) (exponent : ℤ) : ExponentText where
  sign := if exponent < 0 then some '-' else positive
  digits := (Nat.toDigits 10 exponent.natAbs).leftpad least '0'

theorem ofInt_shows (least : ℕ) {positive : Option Char} (hpositive : positive ∈ [none, some '+'])
    (exponent : ℤ) : (ofInt least positive exponent).Shows exponent := by
  have hminus : positive ≠ some '-' := by
    rintro rfl
    exact absurd hpositive (by decide)
  refine ⟨?_, ?_, fun c hc => mem_leftpad hc, ?_⟩
  · simp only [ofInt]
    split
    · decide
    · simp only [List.mem_cons, List.not_mem_nil, or_false] at hpositive
      rcases hpositive with rfl | rfl <;> decide
  · simp [ofInt, List.leftpad]
  · simp only [ofInt, signedNumberOf, numberOf_leftpad]
    by_cases hneg : exponent < 0
    · rw [if_pos hneg, if_pos rfl]
      omega
    · rw [if_neg hneg, if_neg hminus]
      omega

theorem length_text_ofInt_le {least : ℕ} {positive : Option Char} {exponent : ℤ}
    (hleast : least ≤ 4)
    (hexponent : exponent.natAbs < 10 ^ 4) : (ofInt least positive exponent).text.length ≤ 5 := by
  have hdigits : (Nat.toDigits 10 exponent.natAbs).length ≤ 4 :=
    (Nat.length_toDigits_le_iff (by decide) (by decide)).2 hexponent
  have hsign : (ofInt least positive exponent).sign.toList.length ≤ 1 := by
    cases (ofInt least positive exponent).sign <;> simp
  rw [text, List.length_append]
  have hpadded : (ofInt least positive exponent).digits.length ≤ 4 := by
    simp only [ofInt, List.length_leftpad]
    omega
  omega

end ExponentText

/-! ## Digits that are kept -/

namespace DecimalText

/-- The text of a number, from its digits. -/
def ofPlaces (minus : Bool) (d : Places) : DecimalText where
  minus := minus
  whole := d.whole
  fraction := d.fraction ++ List.replicate d.zeros '0'

theorem text_ofPlaces (minus : Bool) (d : Places) :
    (ofPlaces minus d).text = (if minus then ['-'] else []) ++ (d.text false).toList := by
  unfold text ofPlaces Places.text
  congr 1
  by_cases hempty : d.fraction = [] ∧ d.zeros = 0
  · simp [hempty]
  · have hfraction : d.fraction ++ List.replicate d.zeros '0' ≠ [] := by simpa using hempty
    simp only [if_neg hfraction]
    rw [if_neg (by simpa using hempty)]
    simp

/-- The digits of `n`, some of them behind the point, and zeros behind these. -/
def ofDigits (minus : Bool) (n kept zeros : ℕ) : DecimalText :=
  ofPlaces minus { Places.ofScaled 10 n kept with zeros }

section OfDigits

variable (minus : Bool) (n kept zeros : ℕ)

theorem whole_ofDigits :
    (ofDigits minus n kept zeros).whole = Nat.toDigits 10 (n / 10 ^ kept) := rfl

theorem fraction_ofScaled : (Places.ofScaled 10 n kept).fraction.length = kept ∧
    numberOf decimalDigits (Places.ofScaled 10 n kept).fraction = n % 10 ^ kept ∧
    ∀ c ∈ (Places.ofScaled 10 n kept).fraction, c ∈ decimalDigits := by
  unfold Places.ofScaled
  simp only [Nat.pow_eq]
  split
  · next hkept =>
      exact ⟨hkept.symm, by rw [hkept, pow_zero, Nat.mod_one]; rfl, List.forall_mem_nil _⟩
  · next hkept =>
    refine ⟨?_, numberOf_leftpad .., fun c hc => mem_leftpad hc⟩
    have hlength : (Nat.toDigits 10 (n % 10 ^ kept)).length ≤ kept :=
      (Nat.length_toDigits_le_iff (by decide) (Nat.pos_of_ne_zero hkept)).2
        (Nat.mod_lt _ (by positivity))
    rw [List.length_leftpad, max_eq_left hlength]

theorem numberOf_ofDigits :
    numberOf decimalDigits (ofDigits minus n kept zeros).digits = n * 10 ^ zeros := by
  obtain ⟨hlength, hnumber, -⟩ := fraction_ofScaled n kept
  have hbase : decimalDigits.length = 10 := rfl
  have hkept : numberOf decimalDigits
      (Nat.toDigits 10 (n / 10 ^ kept) ++ (Places.ofScaled 10 n kept).fraction) = n := by
    rw [numberOf_append, hnumber, hlength, numberOf_toDigits, hbase, mul_comm, Nat.div_add_mod]
  have hdigits : (ofDigits minus n kept zeros).digits =
      Nat.toDigits 10 (n / 10 ^ kept) ++ (Places.ofScaled 10 n kept).fraction ++
        List.replicate zeros '0' :=
    (List.append_assoc ..).symm
  rw [hdigits, numberOf_append, hkept, numberOf_replicate_zero, List.length_replicate,
    hbase, add_zero]

theorem wellFormed_ofDigits : (ofDigits minus n kept zeros).WellFormed (kept + zeros) := by
  obtain ⟨hlength, -, hmem⟩ := fraction_ofScaled n kept
  refine ⟨Nat.toDigits_ne_nil, fun c hc => ?_, fun hhead => ?_, ?_⟩
  · rw [digits, List.mem_append] at hc
    rcases hc with hc | hc
    · exact mem_toDigits hc
    · rcases List.mem_append.1 hc with hc | hc
      · exact hmem c hc
      · rw [List.eq_of_mem_replicate hc]
        exact spells_decimal.zero_mem
  · rw [whole_ofDigits] at hhead ⊢
    rw [← List.map_id (Nat.toDigits 10 _)] at hhead
    rw [spells_decimal.eq_zero_of_head hhead, Nat.toDigits_zero]
  · exact List.length_append.trans (congrArg₂ _ hlength List.length_replicate)

theorem value_ofDigits :
    (ofDigits minus n kept zeros).value =
      signed minus ((n * 10 ^ zeros : ℕ) / 10 ^ (kept + zeros)) := by
  rw [value, numberOf_ofDigits, (wellFormed_ofDigits minus n kept zeros).fraction_length]
  rfl

/-- A number that starts at the last digit before its point has that digit only. -/
theorem whole_ofDigits_of_lead {n kept : ℕ} (hlow : 10 ^ kept ≤ n) (hhigh : n < 10 ^ (kept + 1))
    (zeros : ℕ) :
    (ofDigits minus n kept zeros).whole.length = 1 ∧
      (ofDigits minus n kept zeros).whole ≠ ['0'] := by
  have hpos : 0 < n / 10 ^ kept := Nat.div_pos hlow (by positivity)
  have hlt : n / 10 ^ kept < 10 := by
    rw [Nat.div_lt_iff_lt_mul (by positivity), ← pow_succ']
    exact hhigh
  rw [whole_ofDigits]
  refine ⟨by rw [Nat.toDigits_of_lt_base hlt, List.length_singleton], fun hzero => ?_⟩
  have hnumber := numberOf_toDigits (n / 10 ^ kept)
  rw [hzero] at hnumber
  exact hpos.ne hnumber

end OfDigits

end DecimalText

namespace Number

theorem Nearest.withSign {grid : Set ℚ} {x y : ℚ} {even : Prop} (H : Nearest grid x y even)
    (hgrid : ∀ {z}, z ∈ grid → -z ∈ grid) (minus : Bool) :
    Nearest grid (signed minus x) (signed minus y) even := by
  cases minus
  · exact H
  · exact H.neg hgrid

namespace Fraction

variable {x : Fraction}

open DecimalText

/-- The places behind the point that are kept, and the zeros behind them. -/
theorem exists_fixed_eq (x : Fraction) (minus : Bool) (places : ℕ) :
    ∃ kept zeros, kept + zeros = places ∧ (zeros = 0 ∨ kept = x.exactPlaces) ∧
      ofPlaces minus (x.fixed places) = ofDigits minus (x.shift kept).round kept zeros :=
  ⟨min places x.exactPlaces, places - min places x.exactPlaces, by omega, by omega, rfl⟩

/-- The places behind the first digit that are kept, and the zeros behind them. -/
theorem exists_scientific_eq (x : Fraction) (minus : Bool) (places : ℕ) :
    ∃ kept zeros, kept + zeros = places ∧ (zeros = 0 ∨ kept = (x.exactPlaces + x.order).toNat) ∧
      ofPlaces minus (x.scientific places).1 = ofDigits minus (x.significant kept).1 kept zeros ∧
      (x.scientific places).2 = (x.significant kept).2 :=
  ⟨min places (x.exactPlaces + x.order).toNat, places - min places (x.exactPlaces + x.order).toNat,
    by omega, by omega, rfl, rfl⟩

theorem IsBinary.fixed_shows (H : x.IsBinary) (minus : Bool) (places : ℕ) :
    (ofPlaces minus (x.fixed places)).ShowsFixed places (signed minus x.value) := by
  obtain ⟨kept, zeros, hplaces, hkept, hdigits⟩ := x.exists_fixed_eq minus places
  have hround : HalfEven ((x.shift kept).round * 10 ^ zeros) (x.value * 10 ^ places) := by
    have hall : HalfEven ((x.shift kept).round * 10 ^ zeros)
        (x.value * 10 ^ ((kept : ℤ) + zeros)) :=
      H.halfEven_kept (by omega)
    rwa [← Nat.cast_add, hplaces, zpow_natCast] at hall
  have hwell := wellFormed_ofDigits minus (x.shift kept).round kept zeros
  have hnumber := numberOf_ofDigits minus (x.shift kept).round kept zeros
  rw [hdigits]
  refine ⟨hplaces ▸ hwell, ?_⟩
  rw [value_ofDigits, hplaces]
  refine (hround.nearest_fixed.withSign neg_mem_fixedGrid minus).imp fun heven => hwell.endsEven ?_
  rwa [hnumber]

namespace Settles

variable {kept rounded n : ℕ} {e : ℤ}

theorem bounds (S : Settles x kept rounded n e) (hlow : 10 ^ kept ≤ rounded) :
    10 ^ kept ≤ n ∧ n < 10 ^ (kept + 1) := by
  cases S with
  | within hlt => exact ⟨hlow, hlt⟩
  | carried heq => exact ⟨le_rfl, pow_lt_pow_right₀ (by norm_num) (Nat.lt_succ_self kept)⟩

/-- A carry changes how a number is written, and not the number. -/
theorem value_eq (S : Settles x kept rounded n e) (zeros : ℕ) :
    ((n * 10 ^ zeros : ℕ) : ℚ) / 10 ^ (kept + zeros) * 10 ^ e =
      (rounded * 10 ^ zeros : ℕ) * 10 ^ (x.order - (kept + zeros : ℕ)) := by
  rw [zpow_sub₀ (by norm_num), zpow_natCast]
  cases S with
  | within hlt => ring
  | carried heq =>
    rw [heq, zpow_add_one₀ (by norm_num)]
    push_cast
    ring

/-- The digits end in an even one if the rounded number is even, unless the last
one was lost to a carry. -/
theorem even_or (S : Settles x kept rounded n e) {zeros : ℕ} (heven : Even (rounded * 10 ^ zeros)) :
    Even (n * 10 ^ zeros) ∨ kept + zeros = 0 ∧ e = x.order + 1 := by
  cases S with
  | within hlt => exact .inl heven
  | carried heq =>
    rcases Nat.eq_zero_or_pos (kept + zeros) with hplaces | hplaces
    · exact .inr ⟨hplaces, rfl⟩
    · left
      rw [← pow_add]
      exact Even.pow_of_ne_zero (by decide) hplaces.ne'

/-- The digits on the grid of a number's decade, with the carry settled, show the number. -/
theorem shows (S : Settles x kept rounded n e) (hnum : 0 < x.num) (hden : 0 < x.den)
    (hlow : 10 ^ kept ≤ rounded) (hhigh : rounded ≤ 10 ^ (kept + 1)) (minus : Bool)
    {zeros places : ℕ} (hplaces : kept + zeros = places)
    (hround : HalfEven (rounded * 10 ^ zeros) (x.value * 10 ^ (places - x.order))) :
    (ofDigits minus n kept zeros).ShowsScientific e places (signed minus x.value) := by
  subst hplaces
  obtain ⟨hdecade, hnext⟩ := order_bounds hnum hden
  have hpos : 0 < x.value := lt_of_lt_of_le (by positivity) hdecade
  have habs : |signed minus x.value| = x.value := by rw [abs_signed, abs_of_pos hpos]
  have hne : signed minus x.value ≠ 0 := by rw [← abs_pos, habs]; exact hpos
  have hwell := wellFormed_ofDigits minus n kept zeros
  obtain ⟨hlead, hlead'⟩ := S.bounds hlow
  obtain ⟨hone, hzero⟩ := whole_ofDigits_of_lead minus hlead hlead' zeros
  have hfits : rounded * 10 ^ zeros ≤ 10 ^ (kept + zeros + 1) := by
    calc rounded * 10 ^ zeros ≤ 10 ^ (kept + 1) * 10 ^ zeros := Nat.mul_le_mul_right _ hhigh
      _ = 10 ^ (kept + zeros + 1) := by ring
  refine ⟨hwell, hone, iff_of_false hzero hne, fun h => absurd h hne, fun _ => ?_, ?_⟩
  · rw [habs]
    cases S with
    | within hlt => exact .inl ⟨hdecade, hnext⟩
    | carried heq =>
      refine .inr ⟨by rwa [add_sub_cancel_right], hnext, ?_⟩
      rw [value_ofDigits, abs_signed, ← pow_add, Nat.cast_pow, Nat.cast_ofNat,
        div_self (by positivity), abs_one]
  · rw [value_ofDigits, signed_mul, S.value_eq]
    have hnearest := (hround.nearest_scientific hdecade hfits).withSign neg_mem_scientificGrid minus
    refine hnearest.imp fun heven => ?_
    rw [habs]
    rcases S.even_or heven with heven | ⟨hnone, rfl⟩
    · exact .inl (hwell.endsEven (by rwa [numberOf_ofDigits]))
    · exact .inr ⟨hnone, hnext⟩

end Settles

theorem IsBinary.scientific_shows_of_pos (H : x.IsBinary) (hnum : 0 < x.num) (minus : Bool)
    (places : ℕ) :
    (ofPlaces minus (x.scientific places).1).ShowsScientific (x.scientific places).2 places
      (signed minus x.value) := by
  have hreach := H.exactPlaces_add_order_nonneg hnum
  obtain ⟨kept, zeros, hplaces, hkept, hdigits, hexponent⟩ := x.exists_scientific_eq minus places
  have hround : HalfEven ((x.shift (kept - x.order)).round * 10 ^ zeros)
      (x.value * 10 ^ (places - x.order)) := by
    have hall : HalfEven ((x.shift (kept - x.order)).round * 10 ^ zeros)
        (x.value * 10 ^ (kept - x.order + zeros)) := H.halfEven_kept (by omega)
    rwa [sub_add_eq_add_sub, ← Nat.cast_add, hplaces] at hall
  obtain ⟨hlow, hhigh⟩ := round_shift_bounds hnum H.den_pos kept
  rw [hdigits, hexponent]
  exact (significant_settles hnum H.den_pos kept).shows hnum H.den_pos hlow hhigh minus
    hplaces hround

/-- Zero has no decade. -/
theorem scientific_shows_of_zero (hnum : x.num = 0) (minus : Bool) (places : ℕ) :
    (ofPlaces minus (x.scientific places).1).ShowsScientific (x.scientific places).2 places
      (signed minus x.value) := by
  obtain ⟨kept, zeros, hplaces, -, hdigits, hexponent⟩ := x.exists_scientific_eq minus places
  have hsignificant : x.significant kept = (0, 0) := by rw [significant, if_pos hnum]
  rw [hsignificant] at hdigits hexponent
  have hvalue : signed minus x.value = 0 := by
    rw [value, hnum, Nat.cast_zero, zero_div, signed_zero]
  have hshown : (ofDigits minus 0 kept zeros).value = 0 := by
    rw [value_ofDigits, zero_mul, Nat.cast_zero, zero_div, signed_zero]
  have hwhole : (ofDigits minus 0 kept zeros).whole = ['0'] := by
    rw [whole_ofDigits, Nat.zero_div, Nat.toDigits_zero]
  have hwell := wellFormed_ofDigits minus 0 kept zeros
  rw [hdigits, hexponent, hvalue]
  refine ⟨hplaces ▸ hwell, by rw [hwhole, List.length_singleton], iff_of_true hwhole rfl,
    fun _ => rfl, fun h => absurd rfl h, ?_⟩
  rw [hshown, zero_mul]
  refine ⟨⟨0, 0, by positivity, by rw [Int.cast_zero, zero_mul]⟩, fun z _ => ?_,
    fun z _ hne htie => ?_⟩
  · rw [sub_zero, abs_zero]
    exact abs_nonneg _
  · rw [sub_zero, sub_zero, abs_zero, abs_eq_zero] at htie
    exact absurd htie hne

theorem IsBinary.scientific_shows (H : x.IsBinary) (minus : Bool) (places : ℕ) :
    (ofPlaces minus (x.scientific places).1).ShowsScientific (x.scientific places).2 places
      (signed minus x.value) := by
  rcases Nat.eq_zero_or_pos x.num with hnum | hnum
  · exact scientific_shows_of_zero hnum minus places
  · exact H.scientific_shows_of_pos hnum minus places

-- of 9.5 without places only the one is seen that the carry leaves
example : scientific ⟨19, 2⟩ 0 = ({ whole := ['1'], fraction := [], zeros := 0 }, 1) := by
  decide +kernel

end Fraction

end Number

end FormattedOutput
