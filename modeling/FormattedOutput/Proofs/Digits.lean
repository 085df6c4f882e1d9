/-! Digits read back. An alphabet lists the digits of a base in the order of their values, and
`numberOf` is the number that digits of an alphabet stand for. The digits that are written for a
number stand for it (`Spells.numberOf_map`), also behind zeros, and do not start with a zero
unless they are that zero. -/

namespace FormattedOutput

/-! The alphabets. -/

def octalDigits : List Char := ['0', '1', '2', '3', '4', '5', '6', '7']

def decimalDigits : List Char := ['0', '1', '2', '3', '4', '5', '6', '7', '8', '9']

def hexDigits : List Char :=
  ['0', '1', '2', '3', '4', '5', '6', '7', '8', '9', 'a', 'b', 'c', 'd', 'e', 'f']

def upperHexDigits : List Char :=
  ['0', '1', '2', '3', '4', '5', '6', '7', '8', '9', 'A', 'B', 'C', 'D', 'E', 'F']

/-- The number that some digits stand for, in the base that is the length of their alphabet. -/
def numberOf (alphabet ds : List Char) : Nat :=
  ds.foldl (fun n c => alphabet.length * n + alphabet.idxOf c) 0

/-- The number that a text stands for, if it consists of digits. -/
def numberOf? (alphabet ds : List Char) : Option Nat :=
  if ds.all alphabet.contains then some (numberOf alphabet ds) else none

/-- The number that a sign and some digits stand for. -/
def signedNumberOf (alphabet : List Char) (sign : Option Char) (ds : List Char) : Int :=
  if sign = some '-' then -(numberOf alphabet ds : Int) else numberOf alphabet ds

theorem numberOf_concat (alphabet ds : List Char) (c : Char) :
    numberOf alphabet (ds ++ [c]) = alphabet.length * numberOf alphabet ds + alphabet.idxOf c := by
  rw [numberOf, List.foldl_append]
  rfl

/-- An alphabet for the digits of a base, where a function turns the usual digits
into those of the alphabet. -/
structure Spells (alphabet : List Char) (b : Nat) (spell : Char → Char) : Prop where
  base : 1 < b
  length_eq : alphabet.length = b
  zero : spell '0' = '0'
  idxOf_eq : ∀ k < b, alphabet.idxOf (spell k.digitChar) = k

theorem spells_decimal : Spells decimalDigits 10 id :=
  ⟨by decide, rfl, rfl, by decide⟩

theorem spells_octal : Spells octalDigits 8 id :=
  ⟨by decide, rfl, rfl, by decide⟩

theorem spells_hexadecimal : Spells hexDigits 16 id :=
  ⟨by decide, rfl, rfl, by decide⟩

theorem spells_upperHexadecimal : Spells upperHexDigits 16 Char.toUpper :=
  ⟨by decide, rfl, by decide, by decide⟩

namespace Spells

variable {alphabet : List Char} {b : Nat} {spell : Char → Char}

theorem mem_of_lt (H : Spells alphabet b spell) {k : Nat} (hk : k < b) :
    spell k.digitChar ∈ alphabet := by
  rw [← List.idxOf_lt_length_iff, H.idxOf_eq k hk, H.length_eq]
  exact hk

theorem idxOf_zero (H : Spells alphabet b spell) : alphabet.idxOf '0' = 0 := by
  rw [← H.zero]
  exact H.idxOf_eq 0 (Nat.zero_lt_of_lt H.base)

theorem zero_mem (H : Spells alphabet b spell) : '0' ∈ alphabet := by
  rw [← H.zero]
  exact H.mem_of_lt (Nat.zero_lt_of_lt H.base)

/-- Zeros in front of digits change nothing. -/
theorem numberOf_zeros_append (H : Spells alphabet b spell) (count : Nat) (ds : List Char) :
    numberOf alphabet (List.replicate count '0' ++ ds) = numberOf alphabet ds := by
  have hzeros : numberOf alphabet (List.replicate count '0') = 0 := by
    induction count with
    | zero => rfl
    | succ count ih => rw [List.replicate_succ', numberOf_concat, ih, H.idxOf_zero, Nat.mul_zero]
  rw [numberOf, List.foldl_append]
  rw [numberOf] at hzeros
  rw [hzeros]
  rfl

/-- The last digit stands for the remainder, and those before it for the quotient. -/
theorem map_toDigits_eq (H : Spells alphabet b spell) {n : Nat} (hn : b ≤ n) :
    (Nat.toDigits b n).map spell =
      (Nat.toDigits b (n / b)).map spell ++ [spell (n % b).digitChar] := by
  rw [Nat.toDigits_of_base_le H.base hn, List.map_append]
  rfl

theorem mod_lt (H : Spells alphabet b spell) (n : Nat) : n % b < b :=
  Nat.mod_lt n (Nat.zero_lt_of_lt H.base)

/-- Induction on a number along its digits, from the first one on. -/
theorem induction_digits (H : Spells alphabet b spell) {motive : Nat → Prop}
    (digit : ∀ n < b, motive n) (longer : ∀ n, b ≤ n → motive (n / b) → motive n) (n : Nat) :
    motive n := by
  induction n using Nat.strongRecOn with
  | ind n ih =>
    by_cases hn : n < b
    · exact digit n hn
    · have hpos := H.base
      exact longer n (Nat.le_of_not_lt hn) (ih (n / b) (Nat.div_lt_self (by omega) H.base))

theorem numberOf_map (H : Spells alphabet b spell) (n : Nat) :
    numberOf alphabet ((Nat.toDigits b n).map spell) = n := by
  induction n using H.induction_digits with
  | digit n hn =>
    rw [Nat.toDigits_of_lt_base hn]
    exact (numberOf_concat alphabet [] _).trans ((Nat.zero_add _).trans (H.idxOf_eq n hn))
  | longer n hn ih =>
    rw [H.map_toDigits_eq hn, numberOf_concat, ih, H.idxOf_eq _ (H.mod_lt n), H.length_eq,
      Nat.div_add_mod]

theorem mem_of_mem_map (H : Spells alphabet b spell) {n : Nat} {c : Char}
    (hc : c ∈ (Nat.toDigits b n).map spell) : c ∈ alphabet := by
  induction n using H.induction_digits with
  | digit n hn =>
    rw [Nat.toDigits_of_lt_base hn, List.map_singleton, List.mem_singleton] at hc
    rw [hc]
    exact H.mem_of_lt hn
  | longer n hn ih =>
    rw [H.map_toDigits_eq hn, List.mem_append, List.mem_singleton] at hc
    rcases hc with hc | rfl
    · exact ih hc
    · exact H.mem_of_lt (H.mod_lt n)

theorem numberOf?_map (H : Spells alphabet b spell) (n : Nat) :
    numberOf? alphabet ((Nat.toDigits b n).map spell) = some n := by
  have hall : ((Nat.toDigits b n).map spell).all alphabet.contains = true :=
    List.all_eq_true.2 fun c hc => List.contains_iff_mem.2 (H.mem_of_mem_map hc)
  rw [numberOf?, if_pos hall, H.numberOf_map]

/-- Only the digit of zero starts with a zero. -/
theorem eq_zero_of_head (H : Spells alphabet b spell) {n : Nat}
    (hhead : ((Nat.toDigits b n).map spell).head? = some '0') : n = 0 := by
  induction n using H.induction_digits with
  | digit n hn =>
    rw [Nat.toDigits_of_lt_base hn] at hhead
    rw [← H.idxOf_eq n hn, Option.some.inj hhead, H.idxOf_zero]
  | longer n hn ih =>
    have hne : (Nat.toDigits b (n / b)).map spell ≠ [] := by simp
    obtain ⟨c, cs, hfront⟩ := List.exists_cons_of_ne_nil hne
    rw [H.map_toDigits_eq hn, hfront] at hhead
    rw [hfront] at ih
    have hsmall : b = 0 ∨ n < b := Nat.div_eq_zero_iff.1 (ih hhead)
    have hb := H.base
    omega

theorem toDigits_inj (H : Spells alphabet b spell) {m n : Nat}
    (h : Nat.toDigits b m = Nat.toDigits b n) :
    m = n := by
  rw [← H.numberOf_map m, h, H.numberOf_map]

end Spells

end FormattedOutput
