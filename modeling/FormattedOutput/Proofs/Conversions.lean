import FormattedOutput.Freestanding.Format
import FormattedOutput.Hosted.Format
import FormattedOutput.Proofs.Utf8
import FormattedOutput.Proofs.Written

/-! The conversions that both format languages have. Where a directive asks for no space in place of
a sign and for no alternate form, each language writes a number into one field
(`Freestanding.signedField_eq`, `Hosted.toList_integer`), and texts and characters into one padded
field. The two fields have the same bytes (`Agrees`), for each kind of conversion. -/

namespace FormattedOutput

open Number

theorem toList_pad {α : Type} (left : Bool) (filler : α) (width : Nat) (text : Rope α) :
    (pad left filler width text).toList =
      if left then text.toList ++ List.replicate (width - text.length) filler
      else List.replicate (width - text.length) filler ++ text.toList := by
  cases left <;> simp [pad]

/-- A field depends on the characters of its number only, and not on how
they are cut into chunks. -/
theorem Numeral.toList_field_congr {n m : Numeral} (hfront : n.front.toList = m.front.toList)
    (hdigits : n.digits.toList = m.digits.toList) (justify : Justify) (width : Nat) :
    (n.field justify width).toList = (m.field justify width).toList := by
  have htext : n.text.toList = m.text.toList := by simp [text, hfront, hdigits]
  have hlength : n.text.length = m.text.length := by
    rw [← Rope.length_toList, htext, Rope.length_toList]
  cases justify <;> simp [field, toList_pad, hlength, htext, hfront, hdigits]

namespace Utf8

theorem encode_map_ofUInt8 {bs : Bytes} (h : ∀ b ∈ bs, b < 0x80) :
    encode (bs.map Char.ofUInt8) = bs := by
  induction bs with
  | nil => rfl
  | cons b bs ih =>
    rw [List.map_cons, encode, List.flatMap_cons, encodeChar_ofUInt8 (h b List.mem_cons_self)]
    exact congrArg (b :: ·) (ih fun c hc => h c (List.mem_cons_of_mem _ hc))

theorem length_le_length_encode (cs : List Char) : cs.length ≤ (encode cs).length := by
  induction cs with
  | nil => exact Nat.le_refl 0
  | cons c cs ih =>
    have hc : 0 < (String.utf8EncodeChar c).length :=
      List.length_pos_iff.2 String.utf8EncodeChar_ne_nil
    simp only [encode, List.flatMap_cons, List.length_append, List.length_cons] at ih ⊢
    omega

theorem length_encode_le (cs : List Char) : (encode cs).length ≤ 4 * cs.length := by
  induction cs with
  | nil => exact Nat.le_refl 0
  | cons c cs ih =>
    have hc := length_encodeChar_le c
    simp only [encode, List.flatMap_cons, List.length_append, List.length_cons] at ih ⊢
    omega

theorem encode_replicate_space (n : Nat) :
    encode (List.replicate n ' ') = List.replicate n ' '.toUInt8 := by
  have hspace : String.utf8EncodeChar ' ' = [' '.toUInt8] := by decide
  rw [encode_replicate, hspace]
  induction n with
  | zero => rfl
  | succ n ih => simp [List.replicate_succ, ih]

/-- A field of characters and the field of their bytes, if both count alike
or none is to be filled. -/
theorem encode_pad {left : Bool} {width : Nat} {cs : List Char} {bs : Bytes} (h : encode cs = bs)
    (hlength : width = 0 ∨ cs.length = bs.length) :
    encode (pad left ' ' width (.ofList cs)).toList =
      (pad left ' '.toUInt8 width (.ofList bs)).toList := by
  have hfilling : width - cs.length = width - bs.length := by omega
  cases left <;> simp [toList_pad, hfilling, h, encode_replicate_space]

end Utf8

namespace Flags

/-- A flag is set if it was, or if its letter is among those that are read. -/
theorem foldl_set_eq {flag : Flags → Bool} {letter : Char}
    (hset : ∀ f c, flag (set f c) = (flag f || c == letter)) (cs : List Char) (f : Flags) :
    flag (cs.foldl set f) = (flag f || cs.contains letter) := by
  induction cs generalizing f with
  | nil => simp
  | cons c cs ih =>
    rw [List.foldl_cons, ih, hset, List.contains_cons, Bool.or_assoc, Bool.beq_comm]

theorem left_set (f : Flags) (c : Char) : (set f c).left = (f.left || c == '-') := by
  fun_cases set f c <;> simp_all

theorem plus_set (f : Flags) (c : Char) : (set f c).plus = (f.plus || c == '+') := by
  fun_cases set f c <;> simp_all

theorem space_set (f : Flags) (c : Char) : (set f c).space = (f.space || c == ' ') := by
  fun_cases set f c <;> simp_all

theorem zero_set (f : Flags) (c : Char) : (set f c).zero = (f.zero || c == '0') := by
  fun_cases set f c <;> simp_all

theorem alternate_set (f : Flags) (c : Char) : (set f c).alternate = (f.alternate || c == '#') := by
  fun_cases set f c <;> simp_all

/-- What fills the field of a number: the flag of the left side takes away the one for zeros. -/
def justify (f : Flags) : Justify := if f.left then .left else if f.zero then .zeros else .right

end Flags

/-! ## The freestanding language -/

namespace Freestanding

theorem within_natCast {n : Nat} (h : n ≤ maxAmount) (go : Nat → Rope Char) :
    within n go = .write (go n) := by
  rw [within, if_pos ⟨Int.natCast_nonneg n, by exact_mod_cast h⟩, Int.toNat_natCast]

theorem require_natCast {n : Nat} (h : n ≤ maxAmount) (a : Attempt) : Attempt.require n a = a := by
  rw [Attempt.require, if_pos ⟨Int.natCast_nonneg n, by exact_mod_cast h⟩]

theorem signedField_eq {l : Layout} (hspace : l.flags.space = false) (n : Signed) :
    signedField l n = within l.width ((n.numeral l.flags.plus).field l.flags.justify) := by
  cases hleft : l.flags.left <;> cases hplus : l.flags.plus <;> cases hzero : l.flags.zero <;>
    simp [signedField, Flags.justify, hspace, hleft, hplus, hzero]

theorem unsignedField_eq (l : Layout) (marker digits : List Char) :
    unsignedField l marker digits =
      within l.width (Numeral.field { marker, digits := .ofList digits } l.flags.justify) :=
  rfl

end Freestanding

/-! ## The host's language -/

namespace Hosted

variable {l : Layout}

theorem widthFor_eq (h : l.width ≤ Freestanding.maxAmount) (length : Nat) :
    l.widthFor length = l.width := by
  have hmax : Freestanding.maxAmount ≤ maxInt := by decide
  rw [Layout.widthFor, if_pos (by omega)]

theorem toList_integer (halternate : l.flags.alternate = false) (hprecision : l.precision = none)
    (hwidth : l.width ≤ Freestanding.maxAmount) (radix : Radix) (sign : List Char) (n : Nat) :
    (integer l radix sign n).toList =
      (Numeral.field { sign, digits := .ofList (cased radix.upper (Nat.toDigits radix.base n)) }
        l.flags.justify l.width).toList := by
  have hjustify : (if l.flags.left then Justify.left
      else if l.flags.zero ∧ l.precision.isNone then .zeros else .right) = l.flags.justify := by
    simp [Flags.justify, hprecision]
  -- without a precision one digit is enough, and there always is one
  have hzeros : 1 - (Nat.toDigits radix.base n).length = 0 := by
    have := List.length_pos_iff.2 (Nat.toDigits_ne_nil (b := radix.base) (n := n))
    omega
  rw [integer, widthFor_eq hwidth, hjustify]
  refine Numeral.toList_field_congr ?_ ?_ _ _
  · simp [Numeral.front, halternate]
  · simp [integerDigits, hprecision, halternate, hzeros]

end Hosted

/-! ## Agreement -/

/-- An attempt of the freestanding language writes the bytes that the host writes. -/
def Agrees (a : Freestanding.Attempt) (text : Rope UInt8) : Prop :=
  ∃ cs : Rope Char, a = .write cs ∧ text.toList = Utf8.encode cs.toList

namespace Written

/-- A directive whose flags are among the three that mean the same in both languages. -/
structure Plain (d : Written) : Prop where
  wellFormed : d.WellFormed
  flags : ∀ c ∈ d.flags, c ∈ ['-', '+', '0']

instance (d : Written) : Decidable d.Plain :=
  decidable_of_iff (d.WellFormed ∧ d.flags.all ['-', '+', '0'].contains = true)
    ⟨fun ⟨h, hflags⟩ => ⟨h, by simpa using hflags⟩,
      fun H => ⟨H.wellFormed, by simpa using H.flags⟩⟩

variable {d : Written}

theorem flagSet_eq (d : Written) {flag : Flags → Bool} {letter : Char}
    (hset : ∀ f c, flag (Flags.set f c) = (flag f || c == letter)) (hnone : flag {} = false) :
    flag d.flagSet = decide (letter ∈ d.flags) := by
  rw [flagSet, Flags.foldl_set_eq hset, hnone, Bool.false_or, List.contains_eq_mem]

theorem Plain.space (H : d.Plain) : d.flagSet.space = false := by
  have hflag : ' ' ∉ d.flags := fun h => absurd (H.flags _ h) (by decide)
  exact (d.flagSet_eq Flags.space_set rfl).trans (decide_eq_false hflag)

theorem Plain.alternate (H : d.Plain) : d.flagSet.alternate = false := by
  have hflag : '#' ∉ d.flags := fun h => absurd (H.flags _ h) (by decide)
  exact (d.flagSet_eq Flags.alternate_set rfl).trans (decide_eq_false hflag)

theorem hostedLayout_justify (d : Written) : d.hostedLayout.flags.justify = d.flagSet.justify := by
  cases hleft : d.flagSet.left <;>
    simp [hostedLayout, Hosted.Manner.flags, Flags.justify, hleft]

theorem hostedLayout_left (d : Written) : d.hostedLayout.flags.left = d.flagSet.left := by
  simp [hostedLayout, Hosted.Manner.flags]

theorem Plain.signOf_eq (H : d.Plain) {n : Freestanding.Signed} (h : n.signable = true) :
    Hosted.signOf d.hostedLayout.flags n.negative = (n.numeral d.flagSet.plus).sign := by
  simp [Hosted.signOf, Freestanding.Signed.numeral, hostedLayout, Hosted.Manner.flags, H.space, h]

theorem Plain.integer_agrees (H : d.Plain) (hprecision : d.precision = none) (radix : Hosted.Radix)
    (sign : List Char) (n : Nat) {m : Numeral} (hfront : m.front.toList = sign)
    (hdigits : m.digits.toList = Hosted.cased radix.upper (Nat.toDigits radix.base n)) :
    Agrees (Freestanding.within d.width.value (m.field d.flagSet.justify))
      (Utf8.encodeRope (Hosted.integer d.hostedLayout radix sign n)) := by
  have hwidth := H.wellFormed.width.value_le
  refine ⟨_, Freestanding.within_natCast hwidth _, ?_⟩
  have halternate : d.hostedLayout.flags.alternate = false := H.alternate
  rw [Utf8.toList_encodeRope,
    Hosted.toList_integer halternate (by simp [hostedLayout, hprecision]) hwidth,
    hostedLayout_justify]
  refine congrArg Utf8.encode (Numeral.toList_field_congr ?_ ?_ _ _)
  · simpa [Numeral.front] using hfront.symm
  · simp [hdigits]

/-- A signed integer in the parts that a field is made of. -/
def signedNumeral (d : Written) (w : UInt64) : Freestanding.Signed where
  negative := d.length.signed w < 0
  digits := .ofList (Nat.toDigits 10 (d.length.signed w).natAbs)

theorem Plain.signedInteger_eq (H : d.Plain) (hprecision : d.precision = none) (w : UInt64) :
    Freestanding.signedInteger d.freestandingLayout w =
      Freestanding.within d.width.value
        (((d.signedNumeral w).numeral d.flagSet.plus).field d.flagSet.justify) := by
  have hrequire : d.freestandingLayout.precision.getD 0 = ((0 : Nat) : Int) := by
    simp [freestandingLayout, hprecision]
  rw [Freestanding.signedInteger, hrequire, Freestanding.require_natCast (Nat.zero_le _),
    Freestanding.signedField_eq H.space]
  rfl

theorem Plain.unsignedInteger_eq (H : d.Plain) (base : Nat) (upper : Bool) (marker : List Char)
    (w : UInt64) :
    Freestanding.unsignedInteger d.freestandingLayout base upper marker w =
      Freestanding.within d.width.value
        (Numeral.field
          { digits := .ofList (Hosted.cased upper (Nat.toDigits base (d.length.unsigned w))) }
          d.flagSet.justify) := by
  have halternate : d.freestandingLayout.flags.alternate = false := H.alternate
  rw [Freestanding.unsignedInteger, Freestanding.unsignedField_eq, halternate]
  rfl

theorem Plain.signedInteger_agrees (H : d.Plain) (hprecision : d.precision = none) (w : UInt64) :
    Agrees (Freestanding.signedInteger d.freestandingLayout w)
      (Utf8.encodeRope (Hosted.signedInteger d.hostedLayout w)) := by
  rw [H.signedInteger_eq hprecision]
  refine H.integer_agrees hprecision .decimal _ _ ?_ (Rope.toList_ofList _)
  exact (Rope.toList_ofList _).trans
    ((List.append_nil _).trans (H.signOf_eq (n := d.signedNumeral w) rfl).symm)

theorem Plain.unsignedInteger_agrees (H : d.Plain) (hprecision : d.precision = none)
    (radix : Hosted.Radix) (marker : List Char) (w : UInt64) :
    Agrees (Freestanding.unsignedInteger d.freestandingLayout radix.base radix.upper marker w)
      (Utf8.encodeRope (Hosted.unsignedInteger d.hostedLayout radix w)) := by
  rw [H.unsignedInteger_eq]
  exact H.integer_agrees hprecision radix [] _ rfl (Rope.toList_ofList _)

theorem floatJustify_eq (d : Written) :
    Hosted.floatJustify .fixed d.hostedLayout.flags = d.flagSet.justify := by
  cases hleft : d.flagSet.left <;> cases hzero : d.flagSet.zero <;>
    simp [hostedLayout, Hosted.Manner.flags, Hosted.floatJustify, Flags.justify, hleft, hzero]

/-- The precision, if there is one, and a default otherwise. -/
def precisionOr (d : Written) (default : Nat) : Nat := (d.precision.map Size.value).getD default

theorem WellFormed.precisionOr_le (H : d.WellFormed) {default : Nat}
    (h : d.precision = none → default ≤ Freestanding.maxAmount) :
    d.precisionOr default ≤ Freestanding.maxAmount := by
  unfold precisionOr
  cases hprecision : d.precision with
  | none => exact h hprecision
  | some p => exact (H.precision p hprecision).value_le

theorem freestandingLayout_precision_getD (d : Written) (default : Nat) :
    d.freestandingLayout.precision.getD default = (d.precisionOr default : Int) := by
  cases hprecision : d.precision <;> simp [freestandingLayout, precisionOr, hprecision]

theorem Plain.fixed_agrees (H : d.Plain) {x : Binary64} {coefficient : Nat} {exponent : Int}
    (hx : x.magnitude = .finite coefficient exponent) :
    Agrees (Freestanding.floating .fixed d.freestandingLayout x)
      (Utf8.encodeRope (Hosted.floating .fixed false d.hostedLayout x)) := by
  let digits := ((Fraction.ofBinary coefficient exponent).fixed (d.precisionOr 6)).text false
  let n : Freestanding.Signed := { negative := x.negative, digits }
  have hwidth := H.wellFormed.width.value_le
  have hfree : Freestanding.floating .fixed d.freestandingLayout x =
      Freestanding.within d.width.value ((n.numeral d.flagSet.plus).field d.flagSet.justify) := by
    have hprecision : d.freestandingLayout.precision.getD 6 = (d.precisionOr 6 : Int) :=
      d.freestandingLayout_precision_getD 6
    have hrange : d.precisionOr 6 ≤ Freestanding.maxAmount :=
      H.wellFormed.precisionOr_le fun _ => by decide
    simp only [Freestanding.floating, hx, hprecision, Freestanding.require_natCast hrange]
    exact Freestanding.signedField_eq H.space n
  have hdigits : Hosted.floatText .fixed d.hostedLayout coefficient exponent = digits := by
    have halternate : d.hostedLayout.flags.alternate = false := H.alternate
    simp only [Hosted.floatText, halternate]
    rfl
  have hhost : Hosted.floating .fixed false d.hostedLayout x =
      Numeral.field { sign := (n.numeral d.flagSet.plus).sign, digits } d.flagSet.justify
        d.width.value := by
    simp only [Hosted.floating, hx, hdigits, floatJustify_eq, ← H.signOf_eq (n := n) rfl]
    rw [Hosted.widthFor_eq hwidth]
    rfl
  refine ⟨_, hfree.trans (Freestanding.within_natCast hwidth _), ?_⟩
  rw [Utf8.toList_encodeRope, hhost]
  rfl

theorem Plain.character_agrees (H : d.Plain) {w : UInt64} (hw : w.toUInt8 < 0x80) :
    Agrees (Freestanding.character d.freestandingLayout w)
      (Hosted.bytesField d.hostedLayout [w.toUInt8]) := by
  have hwidth := H.wellFormed.width.value_le
  refine ⟨_, Freestanding.within_natCast hwidth _, ?_⟩
  have hencode : Utf8.encode ([w.toUInt8].map Char.ofUInt8) = [w.toUInt8] :=
    Utf8.encode_map_ofUInt8 (by simpa using hw)
  rw [Hosted.bytesField, Hosted.widthFor_eq hwidth, hostedLayout_left]
  exact (Utf8.encode_pad hencode (.inr rfl)).symm

/-- What is asked of a text and its field: there is no field, or every character has one byte. -/
inductive FitsText (d : Written) (bs : Bytes) : Prop where
  | whole (hvalid : Utf8.Valid bs) (hwidth : d.width = .digits []) (hprecision : d.precision = none)
  | ascii (h : ∀ b ∈ bs, b < 0x80)

/-- The characters of a text, cut to the precision, are those of its bytes cut to the precision. -/
theorem FitsText.exists_characters {bs : Bytes} (H : d.FitsText bs) :
    ∃ cs, bs = Utf8.encode cs ∧
      Utf8.encode (cs.take (d.precisionOr bs.length)) = bs.take (d.precisionOr bs.length) ∧
      (d.width.value = 0 ∨
        (cs.take (d.precisionOr bs.length)).length =
          (bs.take (d.precisionOr bs.length)).length) := by
  cases H with
  | whole hvalid hwidth hprecision =>
    obtain ⟨cs, rfl⟩ := hvalid
    -- the number of bytes is the precision then, and no character has less than one
    have hlength : d.precisionOr (Utf8.encode cs).length = (Utf8.encode cs).length := by
      simp [precisionOr, hprecision]
    refine ⟨cs, rfl, ?_, .inl (by rw [hwidth]; rfl)⟩
    rw [hlength, List.take_of_length_le (Utf8.length_le_length_encode cs), List.take_length]
  | ascii h =>
    refine ⟨bs.map Char.ofUInt8, (Utf8.encode_map_ofUInt8 h).symm, ?_, .inr (by simp)⟩
    rw [← List.map_take]
    exact Utf8.encode_map_ofUInt8 fun b hb => h b (List.mem_of_mem_take hb)

theorem hostedLayout_cut (d : Written) (bs : Bytes) :
    d.hostedLayout.cut bs = bs.take (d.precisionOr bs.length) := by
  cases hprecision : d.precision <;> simp [Hosted.Layout.cut, hostedLayout, precisionOr, hprecision]

/-- The freestanding language cuts a text to its precision and puts it in a field. -/
theorem WellFormed.text_eq (H : d.WellFormed) {bs : Bytes} {cs : List Char}
    (hcs : bs = Utf8.encode cs)
    (hlength : d.precision = none → bs.length ≤ Freestanding.maxAmount) :
    Freestanding.text d.freestandingLayout bs =
      .write (pad d.flagSet.left ' ' d.width.value
        (.ofList (cs.take (d.precisionOr bs.length)))) := by
  simp only [Freestanding.text, Utf8.decode?_eq_some_iff.2 hcs, freestandingLayout_precision_getD,
    Freestanding.require_natCast (H.precisionOr_le hlength), Int.toNat_natCast]
  exact Freestanding.within_natCast H.width.value_le _

theorem Plain.text_agrees (H : d.Plain) {bs : Bytes} (hbs : d.FitsText bs)
    (hlength : d.precision = none → bs.length ≤ Freestanding.maxAmount) :
    Agrees (Freestanding.text d.freestandingLayout bs) (Hosted.text d.hostedLayout bs) := by
  obtain ⟨cs, hcs, htake, hfield⟩ := hbs.exists_characters
  refine ⟨_, H.wellFormed.text_eq hcs hlength, ?_⟩
  rw [Hosted.text, Hosted.bytesField, Hosted.widthFor_eq H.wellFormed.width.value_le,
    hostedLayout_left, hostedLayout_cut]
  exact (Utf8.encode_pad htake hfield).symm

end Written

end FormattedOutput
