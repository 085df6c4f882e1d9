import FormattedOutput.Proofs.Printing

/-! Fields of texts and characters in the freestanding language. A field counts characters, and its
text is cut between characters only (`Freestanding.prints_text`); a character is printed as the text
of that one character (`Freestanding.prints_character`), whatever its precision is. -/

namespace FormattedOutput

/-- A text in a field of spaces: behind it on demand, and before it otherwise. -/
def spaced (left : Bool) (width : Nat) (cs : List Char) : List Char :=
  if left then cs ++ List.replicate (width - cs.length) ' '
  else List.replicate (width - cs.length) ' ' ++ cs

theorem toList_pad_ofList (left : Bool) (width : Nat) (cs : List Char) :
    (pad left ' ' width (.ofList cs)).toList = spaced left width cs := by
  rw [toList_pad, Rope.toList_ofList, Rope.length_ofList]
  rfl

theorem length_spaced (left : Bool) (width : Nat) (cs : List Char) :
    (spaced left width cs).length = max width cs.length := by
  rw [← toList_pad_ofList, Rope.length_toList, length_pad, Rope.length_ofList]

theorem spaced_zero (left : Bool) (cs : List Char) : spaced left 0 cs = cs := by
  cases left <;> simp [spaced]

/-- Every space of a field has one byte. -/
theorem length_encode_spaced (left : Bool) (width : Nat) (cs : List Char) :
    (Utf8.encode (spaced left width cs)).length =
      (Utf8.encode cs).length + (width - cs.length) := by
  cases left <;> simp [spaced, Utf8.encode_replicate_space, Nat.add_comm]

/-- The character whose code is the low byte of a word. -/
def lowChar (w : UInt64) : Char := Char.ofNat (w.toNat % 0x100)

theorem toNat_ofUInt8 (w : UInt64) : (Char.ofUInt8 w.toUInt8).toNat = w.toNat % 0x100 :=
  (UInt8.toNat_toUInt32 _).trans (UInt64.toNat_toUInt8 w)

theorem ofUInt8_eq_lowChar (w : UInt64) : Char.ofUInt8 w.toUInt8 = lowChar w := by
  rw [lowChar, ← toNat_ofUInt8, Char.ofNat_toNat]

theorem toNat_lowChar (w : UInt64) : (lowChar w).toNat = w.toNat % 0x100 := by
  rw [← ofUInt8_eq_lowChar, toNat_ofUInt8]

theorem length_encode_lowChar (w : UInt64) :
    (Utf8.encode [lowChar w]).length = if w.toNat % 0x100 < 0x80 then 1 else 2 := by
  have hlow : w.toNat % 0x100 < 0x100 := Nat.mod_lt _ (by decide)
  have htwo : w.toNat % 0x100 ≤ 2047 := by omega
  rw [Utf8.encode, List.flatMap_singleton, String.length_utf8EncodeChar, Char.utf8Size]
  simp only [UInt32.le_iff_toNat_le, Char.toNat_val, toNat_lowChar, UInt32.toNat_ofNatLT,
    htwo, if_true, Nat.lt_succ_iff]

theorem untilZero_encode_lowChar {w : UInt64} (hw : w.toNat % 0x100 ≠ 0) :
    (Utf8.encode [lowChar w]).untilZero = Utf8.encode [lowChar w] := by
  have hzero : (0 : UInt8) ∉ Utf8.encode [lowChar w] := by
    rw [Utf8.encode, List.flatMap_singleton]
    intro hmem
    have hencode : Utf8.encode [lowChar w] = Utf8.encode [lowChar 0] := by
      rw [Utf8.encode, List.flatMap_singleton, Utf8.encodeChar_of_mem hmem (by decide)]
      decide
    have hchar := congrArg Char.toNat (List.cons.inj (Utf8.encode_inj.1 hencode)).1
    rw [toNat_lowChar, toNat_lowChar] at hchar
    exact hw hchar
  have hall : ∀ b ∈ Utf8.encode [lowChar w], decide (b ≠ 0) = true := by
    intro b hb
    exact decide_eq_true fun h => hzero (h ▸ hb)
  calc (Utf8.encode [lowChar w]).untilZero
      = (Utf8.encode [lowChar w] ++ []).takeWhile (· ≠ 0) := by rw [List.append_nil]; rfl
    _ = Utf8.encode [lowChar w] ++ [].takeWhile (· ≠ 0) := List.takeWhile_append_of_pos hall
    _ = Utf8.encode [lowChar w] := List.append_nil _

namespace Freestanding

variable {d : Written} {fmt : Bytes}

theorem character_eq (hwidth : d.width.InRange) (w : UInt64) :
    character d.askedLayout w =
      .write (pad d.flagSet.left ' ' d.width.value (.ofList [lowChar w])) := by
  rw [character, ofUInt8_eq_lowChar, Written.askedLayout, hwidth.asked_eq]
  exact within_natCast hwidth.value_le _

theorem prints_character (hd : d.Readable) (hwidth : d.width.InRange) (w : UInt64)
    (surplus : List Argument) (hfmt : fmt.untilZero = d.format 'c') :
    Prints .freestanding .engine fmt (d.amountArgs ++ .word w :: surplus)
      (spaced ('-' ∈ d.flags) d.width.value [lowChar w]) := by
  have happly : (Conversion.ofLetter 'c'.toUInt8).apply d.askedLayout (.word w) =
      some (.write (pad d.flagSet.left ' ' d.width.value (.ofList [lowChar w]))) :=
    congrArg some (character_eq hwidth w)
  have hwrites := format_writes hd (by decide) hfmt
    (perform_of_apply (d.settle_asked _ (.word w :: surplus)) happly)
  rw [toList_pad_ofList, d.flagSet_eq Flags.left_set rfl] at hwrites
  exact prints_of_format_writes hwrites

/-- Without a precision the number of bytes is the greatest number of characters. -/
theorem take_precisionOr (d : Written) (cs : List Char) :
    cs.take (d.precisionOr (Utf8.encode cs).length) = cs.take (d.precisionOr cs.length) := by
  cases hprecision : d.precision with
  | some p => simp [Written.precisionOr, hprecision]
  | none =>
    simp only [Written.precisionOr, hprecision, Option.map_none, Option.getD_none, List.take_length]
    exact List.take_of_length_le (Utf8.length_le_length_encode cs)

theorem perform_text (hd : d.WellFormed) {cs : List Char} {bs : Bytes}
    (hbs : bs.untilZero = Utf8.encode cs)
    (hlength : d.precision = none → (Utf8.encode cs).length ≤ maxAmount)
    (all rest : List Argument) :
    perform d.freestanding 's'.toUInt8 ⟨all, d.amountArgs ++ .text bs :: rest⟩ =
      some (.write
          (pad d.flagSet.left ' ' d.width.value (.ofList (cs.take (d.precisionOr cs.length)))),
        ⟨all, rest⟩) := by
  refine perform_of_apply (Written.freestanding_settle hd _ _) (congrArg some ?_)
  rw [hd.text_eq hbs (hbs ▸ hlength), hbs, take_precisionOr]

theorem prints_text (hd : d.WellFormed) {cs : List Char} {bs : Bytes}
    (hbs : bs.untilZero = Utf8.encode cs)
    (hlength : d.precision = none → (Utf8.encode cs).length ≤ maxAmount) (surplus : List Argument)
    (hfmt : fmt.untilZero = d.format 's') :
    Prints .freestanding .engine fmt (d.amountArgs ++ .text bs :: surplus)
      (spaced ('-' ∈ d.flags) d.width.value (cs.take (d.precisionOr cs.length))) := by
  have hwrites := format_writes hd.readable (by decide) hfmt (perform_text hd hbs hlength _ surplus)
  rw [toList_pad_ofList, d.flagSet_eq Flags.left_set rfl] at hwrites
  exact prints_of_format_writes hwrites

/-- **Fields of characters.** With every set of flags and every width in range, a text comes to
its first characters, as many as the precision says, in a field of spaces, which has as many
characters as the greater of width and text. A character comes to the field of the text that is
the character of its low byte, whatever the precision; only the zero byte, which ends a text,
cannot be printed as one. -/
theorem text_fields_count_characters (d : Written) (hd : d.Readable) (hwidth : d.width.InRange)
    (surplus : List Argument) :
    (∀ (fmt : Bytes) (cs : List Char) (bs : Bytes),
      fmt.untilZero = d.format 's' → bs.untilZero = Utf8.encode cs →
        (∀ p ∈ d.precision, p.InRange) →
      (d.precision = none → (Utf8.encode cs).length ≤ maxAmount) →
        let k := min (d.precisionOr cs.length) cs.length
        let out := spaced ('-' ∈ d.flags) d.width.value (cs.take k)
        Prints .freestanding .engine fmt (d.amountArgs ++ .text bs :: surplus) out ∧
          out.length = max d.width.value k) ∧
    (∀ (fmt : Bytes) (w : UInt64), fmt.untilZero = d.format 'c' →
      let out := spaced ('-' ∈ d.flags) d.width.value [lowChar w]
      Prints .freestanding .engine fmt (d.amountArgs ++ .word w :: surplus) out ∧
        (Utf8.encode out).length = (if w.toNat % 0x100 < 0x80 then 1 else 2) + (d.width.value - 1) ∧
        (w.toNat % 0x100 ≠ 0 →
          ∀ fmt' : Bytes, fmt'.untilZero = { d with precision := none }.format 's' →
          ∀ (c : Site) (errno : Int),
            c.call .freestanding .engine fmt (d.amountArgs ++ .word w :: surplus) errno =
              c.call .freestanding .engine fmt'
                (d.width.args ++ .text (Utf8.encode [lowChar w]) :: surplus) errno)) := by
  refine ⟨fun fmt cs bs hfmt hbs hprecision hlength => ?_, fun fmt w hfmt => ?_⟩
  · have hwell : d.WellFormed := ⟨hd.flags, hwidth, hd.width_head, hprecision, hd.length⟩
    have htake :
        cs.take (min (d.precisionOr cs.length) cs.length) = cs.take (d.precisionOr cs.length) :=
      List.take_eq_take_min.symm
    refine ⟨?_, ?_⟩
    · rw [htake]
      exact prints_text hwell hbs hlength surplus hfmt
    · rw [length_spaced, List.length_take, Nat.min_assoc, Nat.min_self]
  · have hprints := prints_character hd hwidth w surplus hfmt
    refine ⟨hprints, ?_, fun hw fmt' hfmt' c errno => ?_⟩
    · rw [length_encode_spaced, length_encode_lowChar]
      rfl
    · let d' : Written := { d with precision := none }
      have hwell : d'.WellFormed := ⟨hd.flags, hwidth, hd.width_head, by simp [d'], hd.length⟩
      have hlength : (Utf8.encode [lowChar w]).length ≤ maxAmount := by
        rw [length_encode_lowChar]
        split <;> decide
      have htext := prints_text hwell (untilZero_encode_lowChar hw) (fun _ => hlength) surplus hfmt'
      have hargs : d'.amountArgs = d.width.args := List.append_nil _
      rw [hargs] at htext
      exact hprints.call_eq htext c errno

/-- A text of characters that have one, two, three and four bytes, cut behind the third of
them, in a field whose width is an argument; and a character of two bytes, with a
precision that no text may have. -/
theorem text_fields_count_characters_cut :
    Prints .freestanding .engine (Utf8.encode "%-*.3s".toList)
        [.word 5, .text (Utf8.encode ['n', 'é', '😀', '€'])] ['n', 'é', '😀', ' ', ' '] ∧
      Prints .freestanding .engine (Utf8.encode "%03.*c".toList) [.word 0xffffffff, .word 0x1e9]
        [' ', ' ', 'é'] :=
  ⟨((text_fields_count_characters
        { flags := ['-'], width := .star 5, precision := some (.digits ['3']), length := .int }
        (Written.WellFormed.readable (by decide +kernel)) (by decide +kernel) []).1
        _ ['n', 'é', '😀', '€'] _ (by decide +kernel) (by decide +kernel) (by decide +kernel)
        (by decide +kernel)).1,
    ((text_fields_count_characters
        { flags := ['0'], width := .digits ['3'], precision := some (.star 0xffffffff),
          length := .int }
        ⟨forall_mem_of_all (by decide +kernel), forall_mem_of_all (by decide +kernel), by decide,
          fun p hp => by cases hp; trivial, by decide⟩ (by decide +kernel) []).2
        _ 0x1e9 (by decide +kernel)).1⟩

end Freestanding

end FormattedOutput
