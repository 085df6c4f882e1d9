import Mathlib.Algebra.Order.Field.Power
import Mathlib.Algebra.Order.Field.Rat
import Mathlib.Algebra.Ring.Parity
import Mathlib.Tactic.FieldSimp
import Mathlib.Tactic.Linarith
import Mathlib.Tactic.Positivity
import Mathlib.Tactic.Ring
import FormattedOutput.Number.Decimal

/-! Rounding to decimal places. `HalfEven` relates a number to its nearest integer, and `Nearest`
relates it to the nearest number of a grid: the multiples of a power of ten, or all numbers with
some digits and an exponent. An integer nearest to a scaled number gives the nearest number of both
grids (`HalfEven.nearest_fixed`, `HalfEven.nearest_scientific`). The digits of a fraction are such
integers, also where they end before the places do (`Fraction.IsBinary.halfEven_kept`). -/

namespace FormattedOutput.Number

/-! ## Nearest integers -/

/-- An integer nearest to a number, which is even if there are two. -/
structure HalfEven (n : ℕ) (y : ℚ) : Prop where
  half : |(n : ℚ) - y| ≤ 1 / 2
  even : |(n : ℚ) - y| = 1 / 2 → Even n

theorem halfEven_natCast (n : ℕ) : HalfEven n n := by
  constructor <;> norm_num

/-- An integer and a rest below one are rounded to the nearer end, and from the
middle to the even one. -/
theorem halfEven_add_rest (n : ℕ) {rest : ℚ} (hpos : 0 ≤ rest) (hlt : rest < 1) :
    HalfEven (if 1 / 2 < rest ∨ rest = 1 / 2 ∧ n % 2 = 1 then n + 1 else n) (n + rest) := by
  split
  · next hup =>
    have hdistance : |((n + 1 : ℕ) : ℚ) - (n + rest)| = 1 - rest := by
      rw [Nat.cast_add, Nat.cast_one, add_sub_add_left_eq_sub, abs_of_pos (by linarith)]
    refine ⟨?_, fun htie => ?_⟩
    · rw [hdistance]
      rcases hup with hup | hup <;> linarith
    · rw [hdistance] at htie
      rcases hup with hup | hup
      · linarith
      · exact Nat.even_add_one.2 (Nat.not_even_iff.2 hup.2)
  · next hdown =>
    have hdistance : |(n : ℚ) - (n + rest)| = rest := by
      rw [sub_add_cancel_left, abs_neg, abs_of_nonneg hpos]
    rw [not_or, not_and] at hdown
    refine ⟨?_, fun htie => ?_⟩
    · rw [hdistance]
      exact not_lt.1 hdown.1
    · rw [hdistance] at htie
      exact Nat.not_odd_iff_even.1 fun hodd => hdown.2 htie (Nat.odd_iff.1 hodd)

theorem halfEven_roundHalfEven (num : ℕ) {den : ℕ} (hden : 0 < den) :
    HalfEven (roundHalfEven num den) (num / den) := by
  have hden' : (0 : ℚ) < den := by exact_mod_cast hden
  -- the rest, as a part of the denominator
  obtain ⟨rest, hrest⟩ : ∃ rest : ℚ, rest = (num % den : ℕ) / (den : ℚ) := ⟨_, rfl⟩
  have hnum : (num : ℚ) / den = (num / den : ℕ) + rest := by
    have hsum : ((den * (num / den) + num % den : ℕ) : ℚ) = num :=
      congrArg _ (Nat.div_add_mod num den)
    push_cast only [Nat.cast_add, Nat.cast_mul] at hsum
    rw [← hsum, hrest]
    field_simp
  have hpos : 0 ≤ rest := by
    rw [hrest]
    positivity
  have hlt : rest < 1 := by
    rw [hrest, div_lt_one hden']
    exact_mod_cast Nat.mod_lt num hden
  have hmore : den < 2 * (num % den) ↔ 1 / 2 < rest := by
    rw [hrest, div_lt_div_iff₀ two_pos hden', one_mul, mul_comm _ (2 : ℚ)]
    exact_mod_cast Iff.rfl
  have hhalf : 2 * (num % den) = den ↔ rest = 1 / 2 := by
    rw [hrest, div_eq_div_iff hden'.ne' two_ne_zero, one_mul, mul_comm _ (2 : ℚ)]
    exact_mod_cast Iff.rfl
  rw [hnum]
  simp only [roundHalfEven, hmore, hhalf]
  exact halfEven_add_rest _ hpos hlt

namespace HalfEven

variable {n : ℕ} {y : ℚ}

/-- Two integers are at least one apart, so that another one is at least as far from the number. -/
theorem one_le (n : ℕ) (y : ℚ) {k : ℤ} (hk : k ≠ n) : 1 ≤ |(n : ℚ) - y| + |(k : ℚ) - y| := by
  have hint : (1 : ℤ) ≤ |(n : ℤ) - k| := Int.one_le_abs (sub_ne_zero.2 hk.symm)
  have hrat : (1 : ℚ) ≤ |(n : ℚ) - k| := by exact_mod_cast hint
  calc (1 : ℚ) ≤ |(n : ℚ) - k| := hrat
    _ = |((n : ℚ) - y) - (k - y)| := by rw [sub_sub_sub_cancel_right]
    _ ≤ |(n : ℚ) - y| + |(k : ℚ) - y| := abs_sub _ _

theorem le (H : HalfEven n y) (k : ℤ) : |(n : ℚ) - y| ≤ |(k : ℚ) - y| := by
  by_cases hk : k = n
  · rw [hk]
    rfl
  · have hone := one_le n y hk
    have hhalf := H.half
    linarith

theorem even_of_tie (H : HalfEven n y) {k : ℤ} (hk : k ≠ n) (htie : |(k : ℚ) - y| = |(n : ℚ) - y|) :
    Even n := by
  have hone := one_le n y hk
  have hhalf := H.half
  exact H.even (by linarith)

theorem natCast_le {m : ℕ} (H : HalfEven n y) (hm : (m : ℚ) ≤ y) : m ≤ n := by
  by_contra hlt
  have hsucc : (n : ℚ) + 1 ≤ m := by exact_mod_cast Nat.lt_of_not_le hlt
  have hhalf := (abs_le.1 H.half).1
  linarith

theorem le_natCast {m : ℕ} (H : HalfEven n y) (hm : y ≤ m) : n ≤ m := by
  by_contra hlt
  have hsucc : (m : ℚ) + 1 ≤ n := by exact_mod_cast Nat.lt_of_not_le hlt
  have hhalf := (abs_le.1 H.half).2
  linarith

theorem eq_of_natCast {m : ℕ} (H : HalfEven n m) : n = m :=
  Nat.le_antisymm (H.le_natCast le_rfl) (H.natCast_le le_rfl)

end HalfEven

/-! ## Nearest numbers of a grid -/

/-- A number of a grid that is nearest to `x`. Another one can be as near only if this
one is even in some sense. -/
structure Nearest (grid : Set ℚ) (x y : ℚ) (even : Prop) : Prop where
  mem : y ∈ grid
  le : ∀ z ∈ grid, |y - x| ≤ |z - x|
  even_of_tie : ∀ z ∈ grid, z ≠ y → |z - x| = |y - x| → even

/-- The multiples of a unit. -/
def multiples (unit : ℚ) : Set ℚ := {y | ∃ k : ℤ, y = k * unit}

/-- The multiples of `10 ^ -places`. -/
def fixedGrid (places : ℕ) : Set ℚ := {y | ∃ k : ℤ, y = k / 10 ^ places}

/-- The numbers with one digit before the point and `places` digits behind
it, times a power of ten. -/
def scientificGrid (places : ℕ) : Set ℚ :=
  {y | ∃ m e : ℤ, |m| < 10 ^ (places + 1) ∧ y = m * 10 ^ (e - places)}

theorem neg_mem_fixedGrid {places : ℕ} {y : ℚ} (hy : y ∈ fixedGrid places) :
    -y ∈ fixedGrid places := by
  obtain ⟨k, rfl⟩ := hy
  exact ⟨-k, by rw [Int.cast_neg, neg_div]⟩

theorem neg_mem_scientificGrid {places : ℕ} {y : ℚ} (hy : y ∈ scientificGrid places) :
    -y ∈ scientificGrid places := by
  obtain ⟨m, e, hm, rfl⟩ := hy
  exact ⟨-m, e, by rwa [abs_neg], by rw [Int.cast_neg, neg_mul]⟩

namespace Nearest

variable {grid : Set ℚ} {x y : ℚ} {even even' : Prop}

theorem imp (H : Nearest grid x y even) (h : even → even') : Nearest grid x y even' :=
  ⟨H.mem, H.le, fun z hz hne htie => h (H.even_of_tie z hz hne htie)⟩

/-- A grid that looks the same from both sides of zero. -/
theorem neg (H : Nearest grid x y even) (hgrid : ∀ {z}, z ∈ grid → -z ∈ grid) :
    Nearest grid (-x) (-y) even := by
  have hmirror (z : ℚ) : |z - -x| = |-z - x| := by
    rw [← abs_neg]
    congr 1
    ring
  refine ⟨hgrid H.mem, fun z hz => ?_, fun z hz hne htie => ?_⟩
  · rw [hmirror, hmirror, neg_neg]
    exact H.le _ (hgrid hz)
  · rw [hmirror, hmirror, neg_neg] at htie
    exact H.even_of_tie _ (hgrid hz) (fun h => hne (by rw [← h, neg_neg])) htie

end Nearest

namespace HalfEven

variable {n places : ℕ} {x : ℚ}

/-- Distances from a number, counted in units of a grid. -/
theorem abs_mul_sub {unit : ℚ} (hunit : 0 < unit) (k x : ℚ) :
    |k * unit - x| = |k - x / unit| * unit := by
  rw [← abs_of_pos hunit, ← abs_mul, abs_of_pos hunit, sub_mul, div_mul_cancel₀ _ hunit.ne']

theorem nearest_multiple {unit : ℚ} (hunit : 0 < unit) (H : HalfEven n (x / unit)) :
    Nearest (multiples unit) x (n * unit) (Even n) := by
  refine ⟨⟨n, by rw [Int.cast_natCast]⟩, ?_, ?_⟩
  · rintro z ⟨k, rfl⟩
    rw [abs_mul_sub hunit, abs_mul_sub hunit]
    exact mul_le_mul_of_nonneg_right (H.le k) hunit.le
  · rintro z ⟨k, rfl⟩ hne htie
    rw [abs_mul_sub hunit, abs_mul_sub hunit] at htie
    refine H.even_of_tie (fun hk => hne ?_) (mul_right_cancel₀ hunit.ne' htie)
    rw [hk, Int.cast_natCast]

theorem nearest_fixed (H : HalfEven n (x * 10 ^ places)) :
    Nearest (fixedGrid places) x (n / 10 ^ places) (Even n) := by
  have hunit : (0 : ℚ) < (10 ^ places)⁻¹ := by positivity
  rw [← div_inv_eq_mul] at H
  exact H.nearest_multiple hunit

/-- A number of the scientific grid is below a power of ten, or a multiple of the unit
that goes with the power. -/
theorem lt_or_mem_multiples {z : ℚ} (hz : z ∈ scientificGrid places) (order : ℤ) :
    z < 10 ^ order ∨ z ∈ multiples (10 ^ (order - places)) := by
  obtain ⟨m, e, hm, rfl⟩ := hz
  rcases lt_or_ge e order with he | he
  · left
    have hm' : |(m : ℚ)| < 10 ^ (places + 1) := by exact_mod_cast hm
    calc (m : ℚ) * 10 ^ (e - places) ≤ |(m : ℚ)| * 10 ^ (e - places) :=
          mul_le_mul_of_nonneg_right (le_abs_self _) (by positivity)
      _ < 10 ^ (places + 1) * 10 ^ (e - places) := mul_lt_mul_of_pos_right hm' (by positivity)
      _ = 10 ^ (e + 1) := by
        rw [← zpow_natCast, ← zpow_add₀ (by norm_num)]
        congr 1
        push_cast
        ring
      _ ≤ 10 ^ order := zpow_le_zpow_right₀ (by norm_num) he
  · right
    obtain ⟨j, hj⟩ := Int.le.dest he
    refine ⟨m * 10 ^ j, ?_⟩
    rw [← hj, add_sub_right_comm, zpow_add₀ (by norm_num), zpow_natCast]
    push_cast
    ring

/-- Of the numbers with some digits, those below the power of ten that starts the decade of `x` are
farther from `x` than that power, and all others are on the grid on which `n` is nearest. -/
theorem nearest_scientific {order : ℤ} (hlow : (10 : ℚ) ^ order ≤ x) (hhigh : n ≤ 10 ^ (places + 1))
    (H : HalfEven n (x * 10 ^ (places - order))) :
    Nearest (scientificGrid places) x (n * 10 ^ (order - places)) (Even n) := by
  have hunit : (0 : ℚ) < 10 ^ (order - places) := by positivity
  have hscale : x * (10 : ℚ) ^ (places - order) = x / 10 ^ (order - places) := by
    rw [← neg_sub, zpow_neg, div_eq_mul_inv]
  rw [hscale] at H
  have hnearest := H.nearest_multiple hunit
  have hfarther {z : ℚ} (hz : z < 10 ^ order) :
      |(n : ℚ) * 10 ^ (order - places) - x| < |z - x| := by
    have hpower : (10 : ℚ) ^ order ∈ multiples (10 ^ (order - places)) := by
      refine ⟨10 ^ places, ?_⟩
      push_cast
      rw [← zpow_natCast, ← zpow_add₀ (by norm_num), add_sub_cancel]
    calc |(n : ℚ) * 10 ^ (order - places) - x| ≤ |10 ^ order - x| := hnearest.le _ hpower
      _ = x - 10 ^ order := by rw [abs_sub_comm, abs_of_nonneg (sub_nonneg.2 hlow)]
      _ < x - z := sub_lt_sub_left hz x
      _ ≤ |z - x| := by
        rw [abs_sub_comm]
        exact le_abs_self _
  refine ⟨?_, fun z hz => ?_, fun z hz hne htie => ?_⟩
  · rcases lt_or_eq_of_le hhigh with hlt | heq
    · exact ⟨n, order, by rw [Nat.abs_cast]; exact_mod_cast hlt, by rw [Int.cast_natCast]⟩
    -- the power of ten that ends the decade starts the next one
    · refine ⟨10 ^ places, order + 1, ?_, ?_⟩
      · rw [abs_of_pos (by positivity)]
        exact pow_lt_pow_right₀ (by norm_num) (Nat.lt_succ_self places)
      · rw [heq, add_sub_right_comm, zpow_add_one₀ (by norm_num)]
        push_cast
        ring
  · rcases lt_or_mem_multiples hz order with hlt | hmem
    · exact (hfarther hlt).le
    · exact hnearest.le z hmem
  · rcases lt_or_mem_multiples hz order with hlt | hmem
    · exact absurd htie (hfarther hlt).ne'
    · exact hnearest.even_of_tie z hmem hne htie

end HalfEven

/-! ## Fractions -/

namespace Fraction

/-- The number that a fraction stands for. -/
def value (x : Fraction) : ℚ := x.num / x.den

/-- A power with an integer exponent, as the fractions of this library have it:
above or below the line. -/
theorem zpow_eq_div (base : ℕ) (e : ℤ) :
    (base : ℚ) ^ e = (Nat.pow base e.toNat : ℕ) / (Nat.pow base (-e).toNat : ℕ) := by
  rw [Nat.pow_eq, Nat.pow_eq, Nat.cast_pow, Nat.cast_pow, ← zpow_natCast, ← zpow_natCast]
  rcases le_total 0 e with he | he
  · rw [Int.toNat_of_nonneg he, Int.toNat_of_nonpos (neg_nonpos.2 he), Nat.cast_zero,
      zpow_zero, div_one]
  · rw [Int.toNat_of_nonpos he, Int.toNat_of_nonneg (neg_nonneg.2 he), Nat.cast_zero,
      zpow_zero, zpow_neg, one_div, inv_inv]

theorem value_ofBinary (coefficient : ℕ) (exponent : ℤ) :
    (ofBinary coefficient exponent).value = coefficient * 2 ^ exponent := by
  have hpow := zpow_eq_div 2 exponent
  rw [Nat.cast_ofNat] at hpow
  rw [value, ofBinary, Nat.cast_mul, hpow, mul_div_assoc]

theorem value_shift (x : Fraction) (places : ℤ) :
    (x.shift places).value = x.value * 10 ^ places := by
  have hpow := zpow_eq_div 10 places
  rw [Nat.cast_ofNat] at hpow
  rw [value, shift, value, Nat.cast_mul, Nat.cast_mul, hpow, div_mul_div_comm]

theorem den_shift_pos {x : Fraction} (hden : 0 < x.den) (places : ℤ) : 0 < (x.shift places).den :=
  Nat.mul_pos hden (Nat.pow_pos (by decide))

/-- Rounding finds the integer nearest to a number. -/
theorem halfEven_round {x : Fraction} (hden : 0 < x.den) : HalfEven x.round x.value :=
  halfEven_roundHalfEven x.num hden

theorem halfEven_round_shift {x : Fraction} (hden : 0 < x.den) (places : ℤ) :
    HalfEven (x.shift places).round (x.value * 10 ^ places) := by
  rw [← value_shift]
  exact halfEven_round (den_shift_pos hden places)

/-! The order of a number. -/

theorem length_toDigits_bounds {n : ℕ} (hn : 0 < n) :
    ∃ length, (Nat.toDigits 10 n).length = length + 1 ∧ 10 ^ length ≤ n ∧
      n < 10 ^ (length + 1) := by
  obtain ⟨length, hlength⟩ :=
    Nat.exists_eq_add_one.2 (List.length_pos_iff.2 (Nat.toDigits_ne_nil (b := 10) (n := n)))
  refine ⟨length, hlength, ?_, ?_⟩
  · rcases Nat.eq_zero_or_pos length with rfl | hpos
    · exact hn
    · by_contra hlt
      have hle := (Nat.length_toDigits_le_iff (by decide) hpos).2 (Nat.lt_of_not_le hlt)
      omega
  · exact (Nat.length_toDigits_le_iff (by decide) (Nat.succ_pos length)).1 hlength.le

theorem order_bounds {x : Fraction} (hnum : 0 < x.num) (hden : 0 < x.den) :
    (10 : ℚ) ^ x.order ≤ x.value ∧ x.value < 10 ^ (x.order + 1) := by
  have hnum' : (0 : ℚ) < x.num := by exact_mod_cast hnum
  have hden' : (0 : ℚ) < x.den := by exact_mod_cast hden
  unfold order value
  split
  · next hle =>
    obtain ⟨length, hlength, hlow, hhigh⟩ := length_toDigits_bounds (Nat.div_pos hle hden)
    rw [Nat.le_div_iff_mul_le hden] at hlow
    rw [Nat.div_lt_iff_lt_mul hden] at hhigh
    rw [hlength, Nat.cast_add_one, add_sub_cancel_right, le_div_iff₀ hden', div_lt_iff₀ hden']
    exact ⟨by exact_mod_cast hlow, by exact_mod_cast hhigh⟩
  · next hlt =>
    obtain ⟨length, hlength, hlow, hhigh⟩ :=
      length_toDigits_bounds (Nat.div_pos (Nat.le_sub_one_of_lt (Nat.lt_of_not_le hlt)) hnum)
    rw [Nat.le_div_iff_mul_le hnum] at hlow
    rw [Nat.div_lt_iff_lt_mul hnum] at hhigh
    have hlow' : 10 ^ length * x.num < x.den := by omega
    have hhigh' : x.den ≤ 10 ^ (length + 1) * x.num := by omega
    have hsucc : -((length : ℤ) + 1) + 1 = -length := by omega
    rw [hlength, Nat.cast_add_one, hsucc, zpow_neg, zpow_neg,
      inv_le_comm₀ (by positivity) (by positivity), lt_inv_comm₀ (by positivity) (by positivity),
      inv_div, div_le_iff₀ hnum', lt_div_iff₀ hnum']
    exact ⟨by exact_mod_cast hhigh', by exact_mod_cast hlow'⟩

/-! Places that are zeros. -/

/-- A number whose denominator is a power of two. -/
def IsBinary (x : Fraction) : Prop := ∃ k, x.den = Nat.pow 2 k

theorem isBinary_ofBinary (coefficient : ℕ) (exponent : ℤ) :
    (ofBinary coefficient exponent).IsBinary :=
  ⟨_, rfl⟩

namespace IsBinary

variable {x : Fraction}

theorem den_eq (H : x.IsBinary) : x.den = 2 ^ x.exactPlaces := by
  obtain ⟨k, hk⟩ := H
  rw [exactPlaces, hk, Nat.pow_eq, Nat.log2_two_pow]

theorem den_pos (H : x.IsBinary) : 0 < x.den := by
  rw [H.den_eq]
  positivity

/-- From its exact places on a number is an integer of that many places. -/
theorem exists_eq (H : x.IsBinary) {places : ℤ} (h : x.exactPlaces ≤ places) :
    ∃ m : ℕ, x.value * 10 ^ places = m := by
  obtain ⟨j, rfl⟩ := Int.le.dest h
  refine ⟨x.num * 5 ^ x.exactPlaces * 10 ^ j, ?_⟩
  have hten : (10 : ℚ) ^ x.exactPlaces = 2 ^ x.exactPlaces * 5 ^ x.exactPlaces := by
    rw [← mul_pow]
    norm_num
  rw [value, H.den_eq, zpow_add₀ (by norm_num), zpow_natCast, zpow_natCast, hten]
  push_cast
  field_simp

/-- The digits that are kept, with zeros behind them: either none are left out, or
those left out are zeros. -/
theorem halfEven_kept (H : x.IsBinary) {places : ℤ} {zeros : ℕ}
    (h : zeros = 0 ∨ x.exactPlaces ≤ places) :
    HalfEven ((x.shift places).round * 10 ^ zeros) (x.value * 10 ^ (places + zeros)) := by
  have hround := halfEven_round_shift H.den_pos places
  rcases h with rfl | h
  · simpa using hround
  · obtain ⟨m, hm⟩ := H.exists_eq h
    rw [hm] at hround
    have hexact : x.value * 10 ^ (places + zeros) = (m * 10 ^ zeros : ℕ) := by
      rw [zpow_add₀ (by norm_num), ← mul_assoc, hm, zpow_natCast]
      push_cast
      rfl
    rw [hround.eq_of_natCast, hexact]
    exact halfEven_natCast _

end IsBinary

/-! ## Digits and an exponent -/

/-- Where the power of ten that starts the decade of a number is scaled to `10 ^ places`, so is the
number to an integer with one digit more than that. -/
theorem round_shift_bounds {x : Fraction} (hnum : 0 < x.num) (hden : 0 < x.den) (places : ℕ) :
    10 ^ places ≤ (x.shift (places - x.order)).round ∧
      (x.shift (places - x.order)).round ≤ 10 ^ (places + 1) := by
  obtain ⟨hlow, hhigh⟩ := order_bounds hnum hden
  have hround := halfEven_round_shift hden (places - x.order)
  have hscale : (0 : ℚ) < 10 ^ (places - x.order) := by positivity
  refine ⟨hround.natCast_le ?_, hround.le_natCast ?_⟩
  · calc ((10 ^ places : ℕ) : ℚ) = 10 ^ x.order * 10 ^ (places - x.order) := by
          rw [← zpow_add₀ (by norm_num), add_sub_cancel, zpow_natCast, Nat.cast_pow, Nat.cast_ofNat]
      _ ≤ x.value * 10 ^ (places - x.order) := mul_le_mul_of_nonneg_right hlow hscale.le
  · calc x.value * 10 ^ (places - x.order) ≤ 10 ^ (x.order + 1) * 10 ^ (places - x.order) :=
          mul_le_mul_of_nonneg_right hhigh.le hscale.le
      _ = ((10 ^ (places + 1) : ℕ) : ℚ) := by
        rw [← zpow_add₀ (by norm_num), Nat.cast_pow, Nat.cast_ofNat, ← zpow_natCast]
        congr 1
        push_cast
        ring

/-- How the digits of a number and its exponent come about: from the digits on the grid of the
number's decade, or from a carry, which leaves a one and zeros in the next decade. -/
inductive Settles (x : Fraction) (places rounded : ℕ) : ℕ → ℤ → Prop where
  | within (hlt : rounded < 10 ^ (places + 1)) : Settles x places rounded rounded x.order
  | carried (heq : rounded = 10 ^ (places + 1)) :
    Settles x places rounded (10 ^ places) (x.order + 1)

theorem significant_settles {x : Fraction} (hnum : 0 < x.num) (hden : 0 < x.den) (places : ℕ) :
    Settles x places (x.shift (places - x.order)).round (x.significant places).1
      (x.significant places).2 := by
  have hbound := (round_shift_bounds hnum hden places).2
  rw [significant, if_neg hnum.ne']
  simp only [Nat.pow_eq]
  split
  · next heq => exact .carried heq
  · next hne => exact .within (lt_of_le_of_ne hbound hne)

/-- The exact places of a number reach its first digit at least. -/
theorem IsBinary.exactPlaces_add_order_nonneg {x : Fraction} (H : x.IsBinary) (hnum : 0 < x.num) :
    0 ≤ x.exactPlaces + x.order := by
  obtain ⟨-, hhigh⟩ := order_bounds hnum H.den_pos
  by_contra hneg
  have hone : (1 : ℚ) ≤ x.num := by exact_mod_cast hnum
  have hsmall : x.value < (2 ^ x.exactPlaces : ℚ)⁻¹ := by
    calc x.value < 10 ^ (x.order + 1) := hhigh
      _ ≤ 10 ^ (-(x.exactPlaces : ℤ)) := zpow_le_zpow_right₀ (by norm_num) (by omega)
      _ = (10 ^ x.exactPlaces : ℚ)⁻¹ := by rw [zpow_neg, zpow_natCast]
      _ ≤ (2 ^ x.exactPlaces : ℚ)⁻¹ := by gcongr; norm_num
  rw [value, H.den_eq, Nat.cast_pow, Nat.cast_ofNat, div_eq_mul_inv] at hsmall
  have hpos : (0 : ℚ) < (2 ^ x.exactPlaces)⁻¹ := by positivity
  nlinarith

end Fraction

end FormattedOutput.Number
