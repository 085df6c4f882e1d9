import FormattedOutput.Text.Utf8

/-! UTF-8 text cut into parts. A byte below 0x80 is a character by itself, so that a text can be cut
in front of it and behind it (`valid_append_cons_iff`). A cut anywhere else leaves a text and at
most three bytes of the character that was cut (`exists_take_encode`). -/

namespace FormattedOutput.Utf8

variable {as bs : Bytes} {b : UInt8}

theorem encode_cons (c : Char) (cs : List Char) :
    encode (c :: cs) = String.utf8EncodeChar c ++ encode cs :=
  List.flatMap_cons

theorem valid_nil : Valid [] := ⟨[], rfl⟩

theorem Valid.append (has : Valid as) (hbs : Valid bs) : Valid (as ++ bs) := by
  obtain ⟨cs, rfl⟩ := has
  obtain ⟨ds, rfl⟩ := hbs
  exact ⟨cs ++ ds, (encode_append cs ds).symm⟩

theorem isSome_decode?_iff : (decode? bs).isSome ↔ Valid bs := by
  simp only [Option.isSome_iff_exists, decode?_eq_some_iff, Valid]

theorem decode?_eq_none_iff : decode? bs = none ↔ ¬ Valid bs := by
  rw [← isSome_decode?_iff, Option.not_isSome_iff_eq_none]

instance : DecidablePred Valid := fun _ => decidable_of_iff _ isSome_decode?_iff

/-! ## Single characters -/

theorem length_encodeChar_le (c : Char) : (String.utf8EncodeChar c).length ≤ 4 := by
  rw [String.length_utf8EncodeChar]
  exact c.utf8Size_le_four

theorem encodeChar_ofUInt8 (hb : b < 0x80) : String.utf8EncodeChar (Char.ofUInt8 b) = [b] := by
  have hall : ∀ n < 128,
      String.utf8EncodeChar (Char.ofUInt8 (UInt8.ofNat n)) = [UInt8.ofNat n] := by decide
  have h := hall b.toNat (UInt8.lt_iff_toNat_lt.1 hb)
  rwa [UInt8.ofNat_toNat] at h

/-- No byte of a longer character is below 0x80. -/
theorem encodeChar_of_mem {c : Char} (hmem : b ∈ String.utf8EncodeChar c) (hb : b < 0x80) :
    String.utf8EncodeChar c = [b] := by
  have hrear (n : Nat) (hn : 128 ≤ n) (hn' : n < 256) : b ≠ UInt8.ofNat n := by
    rintro rfl
    rw [UInt8.lt_iff_toNat_lt, UInt8.toNat_ofNat_of_lt' hn'] at hb
    exact absurd hb (Nat.not_lt.2 hn)
  revert hmem
  fun_cases String.utf8EncodeChar c with
  | case1 =>
    intro hmem
    rw [List.mem_singleton.1 hmem]
  | case2 | case3 | case4 =>
    simp (disch := omega) only [List.mem_cons, List.not_mem_nil, hrear, or_false, false_implies]

/-! ## Texts -/

theorem valid_singleton (hb : b < 0x80) : Valid [b] :=
  ⟨[Char.ofUInt8 b], by rw [encode, List.flatMap_singleton, encodeChar_ofUInt8 hb]⟩

/-- A text can be cut at a byte below 0x80. -/
theorem valid_append_cons_iff (hb : b < 0x80) : Valid (as ++ b :: bs) ↔ Valid as ∧ Valid bs := by
  refine ⟨?_, fun ⟨has, hbs⟩ => has.append ((valid_singleton hb).append hbs)⟩
  rintro ⟨cs, hcs⟩
  induction cs generalizing as with
  | nil => simp at hcs
  | cons c cs ih =>
    rw [encode_cons, List.append_eq_append_iff] at hcs
    -- the first character has the byte in it, or ends in front of it
    rcases hcs with ⟨inner, hc, hlater⟩ | ⟨inner, rfl, hlater⟩
    · cases inner with
      | nil =>
        rw [List.append_nil] at hc
        obtain ⟨-, hbs⟩ := @ih [] hlater
        exact ⟨⟨[c], by simp [encode, hc]⟩, hbs⟩
      | cons d inner =>
        obtain ⟨rfl, rfl⟩ := List.cons.inj hlater
        rw [encodeChar_of_mem (c := c) (by simp [hc]) hb] at hc
        obtain ⟨rfl, rfl⟩ : as = [] ∧ inner = [] := by simpa [List.singleton_eq_append_iff] using hc
        exact ⟨valid_nil, cs, rfl⟩
    · obtain ⟨hinner, hbs⟩ := ih hlater.symm
      exact ⟨Valid.append ⟨[c], by simp [encode]⟩ hinner, hbs⟩

theorem valid_cons_iff (hb : b < 0x80) : Valid (b :: bs) ↔ Valid bs :=
  (@valid_append_cons_iff [] bs b hb).trans (and_iff_right valid_nil)

theorem exists_take_encode (cs : List Char) (n : Nat) :
    ∃ front rear, (encode cs).take n = encode front ++ rear ∧ rear.length ≤ 3 := by
  induction cs generalizing n with
  | nil => exact ⟨[], [], by simp, by simp⟩
  | cons c cs ih =>
    rw [encode_cons, List.take_append]
    by_cases hn : n < (String.utf8EncodeChar c).length
    · have hlength := length_encodeChar_le c
      refine ⟨[], (String.utf8EncodeChar c).take n, ?_, ?_⟩
      · rw [Nat.sub_eq_zero_of_le (Nat.le_of_lt hn)]
        simp
      · rw [List.length_take]
        omega
    · obtain ⟨front, rear, htake, hrear⟩ := ih (n - (String.utf8EncodeChar c).length)
      refine ⟨c :: front, rear, ?_, hrear⟩
      rw [List.take_of_length_le (Nat.le_of_not_lt hn), htake, encode_cons, List.append_assoc]

end FormattedOutput.Utf8
