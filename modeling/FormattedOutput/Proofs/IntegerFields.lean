import FormattedOutput.Proofs.Digits
import FormattedOutput.Proofs.TextFields

/-! Integers in their fields, read back. `IntegerField` cuts a field into its parts, and
`IntegerField.Shows` says that the parts show a number: its sign and its digits stand for it, in the
base and the case of a conversion letter. What every engine prints for an integer is such a field
(`Written.Plain.prints_integer`), of the number in the low bits of the argument. -/

namespace FormattedOutput

/-! ## Numbers in words -/

/-- The digits of an integer conversion, in the order of their values. -/
def alphabetOf (letter : Char) : List Char :=
  if letter = 'o' then octalDigits
  else if letter = 'x' then hexDigits
  else if letter = 'X' then upperHexDigits
  else decimalDigits

/-- How an integer conversion spells a digit. -/
def spelling (letter : Char) : Char → Char := if letter = 'X' then Char.toUpper else id

theorem spells_alphabetOf (letter : Char) :
    Spells (alphabetOf letter) (alphabetOf letter).length (spelling letter) := by
  unfold alphabetOf spelling
  split
  · next h => subst h; exact spells_octal
  · split
    · next h => subst h; exact spells_hexadecimal
    · split
      · exact spells_upperHexadecimal
      · exact spells_decimal

/-- The number of low bits of an argument that an integer conversion takes. -/
def Length.lowBits : Length → Nat
  | char => 8
  | short => 16
  | int => 32
  | long | longLong | size | difference | maximal | extended => 64

namespace Length

theorem bits_eq (l : Length) : l.bits = l.lowBits := by cases l <;> rfl

theorem unsigned_eq (l : Length) (w : UInt64) :
    l.unsigned w = (w.toBitVec.setWidth l.lowBits).toNat := by
  rw [unsigned, bits_eq, BitVec.toNat_setWidth]
  rfl

theorem signed_eq (l : Length) (w : UInt64) :
    l.signed w = (w.toBitVec.setWidth l.lowBits).toInt := by
  rw [signed, bits_eq, BitVec.toInt_eq_toNat_bmod, BitVec.toNat_setWidth, Int.natCast_emod,
    Int.emod_bmod]
  rfl

end Length

/-- The number that an integer conversion finds in an argument. -/
def integerIn (letter : Char) (l : Length) (w : UInt64) : Int :=
  if letter ∈ ['d', 'i'] then (w.toBitVec.setWidth l.lowBits).toInt
  else (w.toBitVec.setWidth l.lowBits).toNat

theorem natAbs_integerIn_lt (letter : Char) (l : Length) (w : UInt64) :
    (integerIn letter l w).natAbs < UInt64.size := by
  have hbits : l.lowBits ≤ 64 := by cases l <;> decide
  have hpow : 2 ^ l.lowBits ≤ UInt64.size := Nat.pow_le_pow_right (by decide) hbits
  have hlow := (w.toBitVec.setWidth l.lowBits).isLt
  unfold integerIn
  split
  · rw [BitVec.toInt_eq_toNat_cond]
    split <;> omega
  · omega

/-! ## Fields -/

/-- A number in a field: spaces, a sign, digits, and spaces. -/
structure IntegerField where
  before : Nat
  sign : Option Char
  digits : List Char
  behind : Nat
  deriving DecidableEq, Repr

namespace IntegerField

def text (f : IntegerField) : List Char :=
  List.replicate f.before ' ' ++ (f.sign.toList ++ f.digits) ++ List.replicate f.behind ' '

/-- The number that the sign and the digits stand for. -/
def value (f : IntegerField) (alphabet : List Char) : Int :=
  signedNumberOf alphabet f.sign f.digits

/-- A field shows a number, by a conversion letter and with some flags: it has spaces on one
side only, its sign and its digits stand for the number, there is a sign where one is due, and
no zero too many in front. -/
structure Shows (f : IntegerField) (flags : List Char) (letter : Char) (n : Int) : Prop where
  before_eq : '-' ∈ flags → f.before = 0
  behind_eq : '-' ∉ flags → f.behind = 0
  digits_ne_nil : f.digits ≠ []
  digits_mem : ∀ c ∈ f.digits, c ∈ alphabetOf letter
  value_eq : f.value (alphabetOf letter) = n
  sign_mem : f.sign ∈ [none, some '-', some '+']
  minus_iff : f.sign = some '-' ↔ n < 0
  plus_iff : f.sign = some '+' ↔ '+' ∈ flags ∧ letter ∈ ['d', 'i'] ∧ 0 ≤ n
  /-- Zeros fill the field if there is a flag for it, and none for the left side. -/
  head_zero : ¬ ('0' ∈ flags ∧ '-' ∉ flags) → f.digits.head? = some '0' → f.digits = ['0']

/-- A sign and digits, filled to a width. -/
def fill (flags : List Char) (width : Nat) (sign : Option Char) (digits : List Char) :
    IntegerField :=
  let filling := width - (sign.toList ++ digits).length
  if '-' ∈ flags then { before := 0, sign, digits, behind := filling }
  else if '0' ∈ flags then
    { before := 0, sign, digits := List.replicate filling '0' ++ digits, behind := 0 }
  else { before := filling, sign, digits, behind := 0 }

section Fill

variable (flags : List Char) (width : Nat) (sign : Option Char) (digits : List Char)

theorem sign_fill : (fill flags width sign digits).sign = sign := by
  unfold fill
  split
  · rfl
  · split <;> rfl

/-- Only zeros can come before the digits, and only on demand. -/
theorem digits_fill :
    ∃ zeros, (fill flags width sign digits).digits = List.replicate zeros '0' ++ digits ∧
    (¬ ('0' ∈ flags ∧ '-' ∉ flags) → zeros = 0) := by
  unfold fill
  split
  · exact ⟨0, rfl, fun _ => rfl⟩
  · split
    · next hleft hzero => exact ⟨_, rfl, fun h => absurd ⟨hzero, hleft⟩ h⟩
    · exact ⟨0, rfl, fun _ => rfl⟩

theorem length_text_fill :
    (fill flags width sign digits).text.length = max width (sign.toList ++ digits).length := by
  unfold fill
  split
  · simp [text]; omega
  · split <;> simp [text] <;> omega

end Fill

/-- The sign of a number. -/
def signFor (flags : List Char) (letter : Char) (n : Int) : Option Char :=
  if n < 0 then some '-' else if '+' ∈ flags ∧ letter ∈ ['d', 'i'] then some '+' else none

/-- A number in its field. -/
def ofInt (flags : List Char) (width : Nat) (letter : Char) (n : Int) : IntegerField :=
  fill flags width (signFor flags letter n)
    ((Nat.toDigits (alphabetOf letter).length n.natAbs).map (spelling letter))

section OfInt

variable (flags : List Char) (width : Nat) (letter : Char) (n : Int)

theorem sign_ofInt : (ofInt flags width letter n).sign = signFor flags letter n :=
  sign_fill ..

theorem signFor_eq_minus_iff : signFor flags letter n = some '-' ↔ n < 0 := by
  simp [signFor]

theorem signFor_eq_plus_iff :
    signFor flags letter n = some '+' ↔ '+' ∈ flags ∧ letter ∈ ['d', 'i'] ∧ 0 ≤ n := by
  unfold signFor
  split
  · next h => exact ⟨fun hminus => absurd hminus (by decide),
      fun hall => absurd h (Int.not_lt.2 hall.2.2)⟩
  · next h =>
    split
    · next hplus => exact ⟨fun _ => ⟨hplus.1, hplus.2, Int.not_lt.1 h⟩, fun _ => rfl⟩
    · next hplus =>
        exact ⟨fun hnone => absurd hnone (by decide), fun hall => absurd ⟨hall.1, hall.2.1⟩ hplus⟩

theorem value_ofInt : (ofInt flags width letter n).value (alphabetOf letter) = n := by
  have H := spells_alphabetOf letter
  obtain ⟨zeros, hdigits, -⟩ := digits_fill flags width (signFor flags letter n)
    ((Nat.toDigits (alphabetOf letter).length n.natAbs).map (spelling letter))
  have hnumber : numberOf (alphabetOf letter) (ofInt flags width letter n).digits = n.natAbs := by
    rw [ofInt, hdigits, H.numberOf_zeros_append, H.numberOf_map]
  rw [value, signedNumberOf, hnumber, sign_ofInt]
  simp only [signFor_eq_minus_iff]
  split <;> omega

theorem length_text_ofInt :
    (ofInt flags width letter n).text.length = max width (ofInt flags 0 letter n).text.length := by
  rw [ofInt, ofInt, length_text_fill, length_text_fill, Nat.zero_max]

theorem ofInt_shows : (ofInt flags width letter n).Shows flags letter n := by
  have H := spells_alphabetOf letter
  obtain ⟨zeros, hdigits, hzeros⟩ := digits_fill flags width (signFor flags letter n)
    ((Nat.toDigits (alphabetOf letter).length n.natAbs).map (spelling letter))
  refine ⟨fun h => ?_, fun h => ?_, ?_, fun c hc => ?_, value_ofInt .., ?_, ?_, ?_,
    fun hfill hhead => ?_⟩
  · rw [ofInt, fill, if_pos h]
  · rw [ofInt, fill, if_neg h]
    split <;> rfl
  · rw [ofInt, hdigits]
    simp
  · rw [ofInt, hdigits, List.mem_append] at hc
    rcases hc with hc | hc
    · rw [List.eq_of_mem_replicate hc]
      exact H.zero_mem
    · exact H.mem_of_mem_map hc
  · rw [sign_ofInt, signFor]
    split
    · decide
    · split <;> decide
  · rw [sign_ofInt, signFor_eq_minus_iff]
  · rw [sign_ofInt, signFor_eq_plus_iff]
  · rw [ofInt, hdigits, hzeros hfill, List.replicate_zero, List.nil_append] at hhead ⊢
    rw [H.eq_zero_of_head hhead, Nat.toDigits_zero, List.map_singleton, H.zero]

end OfInt

theorem length_text_ofInt_le {flags : List Char} {width : Nat} {letter : Char} {n : Int}
    (hwidth : width ≤ Freestanding.maxAmount) (hn : n.natAbs < UInt64.size) :
    (ofInt flags width letter n).text.length ≤ Freestanding.maxAmount := by
  have hbase := (spells_alphabetOf letter).base
  have hdigits : (Nat.toDigits (alphabetOf letter).length n.natAbs).length ≤ 64 :=
    (Nat.length_toDigits_le_iff hbase (by decide)).2
      (Nat.lt_of_lt_of_le hn (Nat.pow_le_pow_left hbase 64))
  have hsign : (signFor flags letter n).toList.length ≤ 1 := by
    cases signFor flags letter n <;> simp
  rw [ofInt, length_text_fill, List.length_append, List.length_map]
  simp only [Freestanding.maxAmount] at hwidth ⊢
  omega

theorem length_encode_text_ofInt_le {flags : List Char} {width : Nat} {letter : Char} {n : Int}
    (hwidth : width ≤ Freestanding.maxAmount) (hn : n.natAbs < UInt64.size) :
    (Utf8.encode (ofInt flags width letter n).text).length ≤ 4 * Freestanding.maxAmount :=
  Nat.le_trans (Utf8.length_encode_le _) (Nat.mul_le_mul_left 4 (length_text_ofInt_le hwidth hn))

/-! Without flags and width a number is its digits, behind the sign of a negative one. -/

theorem text_fill_nil (sign : Option Char) (digits : List Char) :
    (fill [] 0 sign digits).text = sign.toList ++ digits := by
  simp [fill, text]

theorem not_mem_text_ofInt {c letter : Char} (hsign : c ≠ '-')
    (hc : c ∉ alphabetOf letter) (n : Int) :
    c ∉ (ofInt [] 0 letter n).text := by
  rw [ofInt, text_fill_nil, List.mem_append, signFor]
  rintro (hmem | hmem)
  · split at hmem
    · exact hsign (by simpa using hmem)
    · simp at hmem
  · exact hc ((spells_alphabetOf letter).mem_of_mem_map hmem)

theorem text_ofInt_decimal (n : Int) : (ofInt [] 0 'd' n).text = (toString n).toList := by
  have hspell : spelling 'd' = id := rfl
  rw [ofInt, text_fill_nil, hspell, List.map_id]
  cases n with
  | ofNat m => exact (String.toList_ofList).symm
  | negSucc m =>
    have hstring : toString (Int.negSucc m) = "-" ++ String.ofList (Nat.toDigits 10 (m + 1)) := rfl
    have hminus : "-".toList = ['-'] := String.toList_ofList
    have hsign : signFor [] 'd' (Int.negSucc m) = some '-' := if_pos (Int.negSucc_lt_zero m)
    rw [hstring, String.toList_append, hminus, hsign]
    exact congrArg ('-' :: ·) String.toList_ofList.symm

theorem text_ofInt_hexadecimal (n : Nat) : (ofInt [] 0 'x' n).text = Nat.toDigits 16 n := by
  have hspell : spelling 'x' = id := rfl
  have hsign : signFor [] 'x' n = none := if_neg (Int.not_lt.2 (Int.natCast_nonneg n))
  rw [ofInt, text_fill_nil, hspell, List.map_id, hsign]
  rfl

end IntegerField

/-! ## What the engines print -/

namespace Written

variable {d : Written} {letter : Char}

/-- The field of a number, cut into its parts. -/
theorem toList_field (d : Written) (width : Nat) {m : Numeral} {sign : Option Char}
    {digits : List Char}
    (hfront : m.front.toList = sign.toList) (hdigits : m.digits.toList = digits) :
    (m.field d.flagSet.justify width).toList =
      (IntegerField.fill d.flags width sign digits).text := by
  have htext : m.text.toList = sign.toList ++ digits := by
    rw [Numeral.text, Rope.toList_append, hfront, hdigits]
  have hlength : m.text.length = (sign.toList ++ digits).length := by
    rw [← htext, Rope.length_toList]
  rw [Flags.justify, d.flagSet_eq Flags.left_set rfl, d.flagSet_eq Flags.zero_set rfl,
    IntegerField.fill]
  by_cases hleft : '-' ∈ d.flags
  · simp [hleft, Numeral.field, toList_pad, htext, hlength, IntegerField.text]
  · by_cases hzero : '0' ∈ d.flags
    · simp [hleft, hzero, Numeral.field, hfront, hdigits, hlength, IntegerField.text]
    · simp [hleft, hzero, Numeral.field, toList_pad, htext, hlength, IntegerField.text]

theorem Plain.withoutWidth (H : d.Plain) : Plain { d with width := .digits [] } where
  wellFormed :=
    { flags := H.wellFormed.flags
      width := ⟨List.forall_mem_nil _, Nat.zero_le _⟩
      width_head := by simp [Size.text]
      precision := H.wellFormed.precision
      length := H.wellFormed.length }
  flags := H.flags

/-- An attempt to write the field of the integer in a word. -/
def WritesInteger (d : Written) (letter : Char) (w : UInt64) (a : Freestanding.Attempt) : Prop :=
  ∃ text : Rope Char, a = .write text ∧
    text.toList =
      (IntegerField.ofInt d.flags d.width.value letter (integerIn letter d.length w)).text

theorem Plain.signed_writesInteger (H : d.Plain) (hprecision : d.precision = none)
    (hletter : letter ∈ ['d', 'i']) (w : UInt64) :
    d.WritesInteger letter w (Freestanding.signedInteger d.freestandingLayout w) := by
  have hn : integerIn letter d.length w = d.length.signed w := by
    rw [integerIn, if_pos hletter, Length.signed_eq]
  have hspell : (alphabetOf letter).length = 10 ∧ spelling letter = id := by
    simp only [List.mem_cons, List.not_mem_nil, or_false] at hletter
    rcases hletter with rfl | rfl <;> exact ⟨rfl, rfl⟩
  refine ⟨_, (H.signedInteger_eq hprecision w).trans
    (Freestanding.within_natCast H.wellFormed.width.value_le _), ?_⟩
  rw [IntegerField.ofInt, hn, hspell.1, hspell.2, List.map_id]
  refine d.toList_field _ ?_ (Rope.toList_ofList _)
  rw [Numeral.front, Rope.toList_ofList, d.flagSet_eq Flags.plus_set rfl]
  simp only [signedNumeral, Freestanding.Signed.numeral, IntegerField.signFor, hletter, and_true]
  by_cases hneg : d.length.signed w < 0 <;> by_cases hplus : '+' ∈ d.flags <;> simp [hneg, hplus]

theorem Plain.unsigned_writesInteger (H : d.Plain) (hletter : letter ∉ ['d', 'i']) {base : Nat}
    {upper : Bool} (hbase : (alphabetOf letter).length = base) (hupper : upper = (letter == 'X'))
    (marker : List Char) (w : UInt64) :
    d.WritesInteger letter w
      (Freestanding.unsignedInteger d.freestandingLayout base upper marker w) := by
  have hn : integerIn letter d.length w = d.length.unsigned w := by
    rw [integerIn, if_neg hletter, Length.unsigned_eq]
  have hsign : IntegerField.signFor d.flags letter (d.length.unsigned w) = none := by
    simp only [IntegerField.signFor, hletter, and_false, if_false]
    exact if_neg (Int.not_lt.2 (Int.natCast_nonneg _))
  have hspell (ds : List Char) : Hosted.cased upper ds = ds.map (spelling letter) := by
    rw [Hosted.cased, hupper, spelling]
    by_cases h : letter = 'X' <;> simp [h]
  refine ⟨_, (H.unsignedInteger_eq base upper marker w).trans
    (Freestanding.within_natCast H.wellFormed.width.value_le _), ?_⟩
  rw [IntegerField.ofInt, hn, hsign, hbase, Int.natAbs_natCast, ← hspell]
  exact d.toList_field _ rfl (Rope.toList_ofList _)

theorem Plain.apply_writesInteger (H : d.Plain) (hprecision : d.precision = none)
    (hletter : letter ∈ ['d', 'i', 'u', 'x', 'X', 'o']) (w : UInt64) :
    ∃ a, d.WritesInteger letter w a ∧
      (Freestanding.Conversion.ofLetter letter.toUInt8).apply d.freestandingLayout (.word w) =
        some a := by
  simp only [List.mem_cons, List.not_mem_nil, or_false] at hletter
  rcases hletter with rfl | rfl | rfl | rfl | rfl | rfl
  · exact ⟨_, H.signed_writesInteger hprecision (by decide) w, rfl⟩
  · exact ⟨_, H.signed_writesInteger hprecision (by decide) w, rfl⟩
  · exact ⟨_, H.unsigned_writesInteger (by decide) rfl rfl [] w, rfl⟩
  · exact ⟨_, H.unsigned_writesInteger (by decide) rfl rfl ['0', 'x'] w, rfl⟩
  · exact ⟨_, H.unsigned_writesInteger (by decide) rfl rfl ['0', 'x'] w, rfl⟩
  · exact ⟨_, H.unsigned_writesInteger (by decide) rfl rfl ['0', 'o'] w, rfl⟩

theorem Plain.perform_integer (H : d.Plain) (hprecision : d.precision = none)
    (hletter : letter ∈ ['d', 'i', 'u', 'x', 'X', 'o']) (w : UInt64) (all rest : List Argument) :
    ∃ text : Rope Char,
      Freestanding.perform d.freestanding letter.toUInt8 ⟨all, d.amountArgs ++ .word w :: rest⟩ =
        some (.write text, ⟨all, rest⟩) ∧
      text.toList =
        (IntegerField.ofInt d.flags d.width.value letter (integerIn letter d.length w)).text := by
  obtain ⟨a, ⟨text, rfl, htext⟩, happly⟩ := H.apply_writesInteger hprecision hletter w
  exact ⟨text, Freestanding.perform_of_apply (freestanding_settle H.wellFormed _ _) happly, htext⟩

/-- Every engine prints the field of the integer in a word. -/
theorem Plain.prints_integer (H : d.Plain) (hprecision : d.precision = none)
    (hletter : letter ∈ ['d', 'i', 'u', 'x', 'X', 'o']) (w : UInt64) (surplus : List Argument)
    (engine : Engine) (entry : EntryPoint) {fmt : Bytes} (hfmt : fmt.untilZero = d.format letter) :
    Prints engine entry fmt (d.amountArgs ++ .word w :: surplus)
      (IntegerField.ofInt d.flags d.width.value letter (integerIn letter d.length w)).text := by
  have hconverts : Converts d letter (.word w) := .integer hletter hprecision
  have hargs : [Piece.directive d letter (.word w)].flatMap Piece.args ++ surplus =
      d.amountArgs ++ .word w :: surplus := by simp [Piece.args]
  have hformat : fmt.untilZero = [Piece.directive d letter (.word w)].flatMap Piece.format := by
    rw [hfmt, List.flatMap_singleton]
    rfl
  obtain ⟨text, hperform, htext⟩ := H.perform_integer hprecision hletter w
    (d.amountArgs ++ .word w :: surplus) surplus
  have hwrites :=
    Freestanding.format_writes H.wellFormed.readable hconverts.mem_sharedLetters hfmt hperform
  rw [htext] at hwrites
  rw [← hargs] at hwrites ⊢
  have hmost : Piece.LiteralsAtMost Freestanding.maxAmount [.directive d letter (.word w)] :=
    ⟨Nat.zero_le _, trivial⟩
  refine Piece.prints ?_ hmost hformat hwrites ?_ engine entry
  · intro p hp
    rw [List.mem_singleton.1 hp]
    exact ⟨H, hconverts⟩
  · exact Nat.le_trans
      (IntegerField.length_encode_text_ofInt_le H.wellFormed.width.value_le
        (natAbs_integerIn_lt ..))
      (by decide)

end Written

/-! ## Three parts, joined -/

section Joined

variable {n : Int32} {u : UInt32} {w v : UInt64}

theorem integerIn_decimal (hw : w.toUInt32 = n.toUInt32) : integerIn 'd' .int w = n.toInt := by
  have hlow : w.toBitVec.setWidth 32 = n.toBitVec := congrArg UInt32.toBitVec hw
  exact congrArg BitVec.toInt hlow

theorem integerIn_hexadecimal (hv : v.toUInt32 = u) : integerIn 'x' .int v = u.toNat := by
  have hlow : v.toBitVec.setWidth 32 = u.toBitVec := congrArg UInt32.toBitVec hv
  exact congrArg (fun low : BitVec 32 => (low.toNat : Int)) hlow

/-! What directives write that have nothing but their letter. -/

theorem bare_perform_decimal (hw : w.toUInt32 = n.toUInt32) (all rest : List Argument) :
    ∃ text : Rope Char,
      Freestanding.perform Written.bare.freestanding 'd'.toUInt8 ⟨all, .word w :: rest⟩ =
        some (.write text, ⟨all, rest⟩) ∧ text.toList = (toString n.toInt).toList := by
  have hletter : 'd' ∈ ['d', 'i', 'u', 'x', 'X', 'o'] := by decide
  obtain ⟨text, hperform, htext⟩ := Written.bare_plain.perform_integer rfl hletter w all rest
  refine ⟨text, hperform, ?_⟩
  rw [htext, Written.bare, integerIn_decimal hw]
  exact IntegerField.text_ofInt_decimal _

theorem bare_perform_hexadecimal (hv : v.toUInt32 = u) (all rest : List Argument) :
    ∃ text : Rope Char,
      Freestanding.perform Written.bare.freestanding 'x'.toUInt8 ⟨all, .word v :: rest⟩ =
        some (.write text, ⟨all, rest⟩) ∧ text.toList = Nat.toDigits 16 u.toNat := by
  have hletter : 'x' ∈ ['d', 'i', 'u', 'x', 'X', 'o'] := by decide
  obtain ⟨text, hperform, htext⟩ := Written.bare_plain.perform_integer rfl hletter v all rest
  refine ⟨text, hperform, ?_⟩
  rw [htext, Written.bare, integerIn_hexadecimal hv]
  exact IntegerField.text_ofInt_hexadecimal _

theorem bare_perform_text {word : List Char} {bs : Bytes} (hbs : bs.untilZero = Utf8.encode word)
    (hlength : (Utf8.encode word).length ≤ Freestanding.maxAmount) (all rest : List Argument) :
    ∃ text : Rope Char,
      Freestanding.perform Written.bare.freestanding 's'.toUInt8 ⟨all, .text bs :: rest⟩ =
        some (.write text, ⟨all, rest⟩) ∧ text.toList = word := by
  refine ⟨_, Freestanding.perform_text Written.bare_plain.wellFormed hbs (fun _ => hlength)
    all rest, ?_⟩
  rw [toList_pad_ofList]
  exact (spaced_zero _ _).trans List.take_length

/-- A number in decimal, a number in hexadecimal and a text, with a colon
between each two of them. -/
def joinedText (n : Int) (u : Nat) (word : List Char) : List Char :=
  [':'].intercalate [(toString n).toList, Nat.toDigits 16 u, word]

theorem encode_joinedText (n : Int) (u : Nat) (word : List Char) :
    Utf8.encode (joinedText n u word) = Utf8.encode (toString n).toList ++ ([':'.toUInt8] ++
      (Utf8.encode (Nat.toDigits 16 u) ++ ([':'.toUInt8] ++ Utf8.encode word))) := by
  have hcolon : String.utf8EncodeChar ':' = [':'.toUInt8] := by decide
  simp [joinedText, List.intercalate, List.intersperse, Utf8.encode_cons, hcolon]

/-- The pieces of the format that asks for it. -/
def joinedPieces (w v : UInt64) (bs : Bytes) : List Piece :=
  [.directive .bare 'd' (.word w), .literal [':'.toUInt8], .directive .bare 'x' (.word v),
    .literal [':'.toUInt8], .directive .bare 's' (.text bs)]

theorem writes_joinedText {word : List Char} {bs : Bytes} (hw : w.toUInt32 = n.toUInt32)
    (hv : v.toUInt32 = u) (hbs : bs.untilZero = Utf8.encode word)
    (hlength : (Utf8.encode word).length ≤ Freestanding.maxAmount) (all surplus : List Argument) :
    (Freestanding.run
      (Template.parse Freestanding.Spec.scan ((joinedPieces w v bs).flatMap Piece.format))
      ⟨all, .word w :: .word v :: .text bs :: surplus⟩).Writes
        (Utf8.encode (joinedText n.toInt u.toNat word)) := by
  obtain ⟨decimal, hdecimal, hdecimalText⟩ :=
    bare_perform_decimal hw all (.word v :: .text bs :: surplus)
  obtain ⟨hexadecimal, hhexadecimal, hhexadecimalText⟩ :=
    bare_perform_hexadecimal hv all (.text bs :: surplus)
  obtain ⟨text, htext, rfl⟩ := bare_perform_text hbs hlength all surplus
  have hreadable := Written.bare_plain.wellFormed.readable
  have hcolon : Utf8.Valid [':'.toUInt8] := Utf8.valid_singleton (by decide)
  -- from the last directive to the first
  have hwrites :=
    Freestanding.writes_directive hreadable (by decide) Utf8.valid_nil List.not_mem_nil
    (Nat.zero_le _) hdecimal
    (Freestanding.writes_directive hreadable (by decide) hcolon (by decide) (by decide) hhexadecimal
      (Freestanding.writes_directive hreadable (by decide) hcolon (by decide) (by decide) htext
        (Freestanding.writes_nil _)))
  rw [hdecimalText, hhexadecimalText, List.nil_append, List.nil_append, List.append_nil,
    List.append_nil] at hwrites
  have hformat : (joinedPieces w v bs).flatMap Piece.format = Written.bare.format 'd' ++
      ([':'.toUInt8] ++
        (Written.bare.format 'x' ++ ([':'.toUInt8] ++ Written.bare.format 's'))) := by
    simp [joinedPieces, Piece.format, Written.format]
  rw [encode_joinedText, hformat]
  exact hwrites

theorem format_joinedPieces (w v : UInt64) (bs : Bytes) :
    (joinedPieces w v bs).flatMap Piece.format = Utf8.encode "%d:%x:%s".toList := by
  have hclosed : (joinedPieces 0 0 []).flatMap Piece.format = Utf8.encode "%d:%x:%s".toList := by
    decide +kernel
  exact hclosed

/-- Every engine prints the three parts. -/
theorem prints_joinedText {word : List Char} {bs fmt : Bytes} (hw : w.toUInt32 = n.toUInt32)
    (hv : v.toUInt32 = u) (hbs : bs.untilZero = Utf8.encode word)
    (hlength : (Utf8.encode word).length ≤ Freestanding.maxAmount)
    (hfmt : fmt.untilZero = Utf8.encode "%d:%x:%s".toList) (surplus : List Argument)
    (engine : Engine) (entry : EntryPoint) :
    Prints engine entry fmt (.word w :: .word v :: .text bs :: surplus)
      (joinedText n.toInt u.toNat word) := by
  have hformat := hfmt.trans (format_joinedPieces w v bs).symm
  have hwrites :=
    writes_joinedText hw hv hbs hlength (.word w :: .word v :: .text bs :: surplus) surplus
  rw [← hformat] at hwrites
  have hfits : Written.bare.FitsText bs.untilZero := .whole ⟨word, hbs⟩ rfl rfl
  have hshared : ∀ p ∈ joinedPieces w v bs, p.Shared := by
    simp only [joinedPieces, List.forall_mem_cons]
    exact ⟨⟨Written.bare_plain, .integer (by decide) rfl⟩,
      ⟨Utf8.valid_singleton (by decide), by decide⟩, ⟨Written.bare_plain, .integer (by decide) rfl⟩,
      ⟨Utf8.valid_singleton (by decide), by decide⟩,
      ⟨Written.bare_plain, .text rfl hfits fun _ => hbs ▸ hlength⟩, List.forall_mem_nil _⟩
  have hmost : Piece.LiteralsAtMost Freestanding.maxAmount (joinedPieces w v bs) := by
    simp [joinedPieces, Piece.LiteralsAtMost, Piece.leading, Freestanding.maxAmount]
  have hmax : (Utf8.encode (joinedText n.toInt u.toNat word)).length ≤ Hosted.maxInt := by
    have hdecimal :
        (Utf8.encode (toString n.toInt).toList).length ≤ 4 * Freestanding.maxAmount := by
      rw [← IntegerField.text_ofInt_decimal, ← integerIn_decimal hw]
      exact IntegerField.length_encode_text_ofInt_le (Nat.zero_le _) (natAbs_integerIn_lt ..)
    have hhexadecimal :
        (Utf8.encode (Nat.toDigits 16 u.toNat)).length ≤ 4 * Freestanding.maxAmount := by
      rw [← IntegerField.text_ofInt_hexadecimal, ← integerIn_hexadecimal hv]
      exact IntegerField.length_encode_text_ofInt_le (Nat.zero_le _) (natAbs_integerIn_lt ..)
    rw [encode_joinedText]
    simp only [Freestanding.maxAmount] at hdecimal hhexadecimal hlength
    simp only [List.length_append, List.length_cons, List.length_nil, Hosted.maxInt]
    omega
  exact Piece.prints hshared hmost hformat hwrites hmax engine entry

theorem splitOn_joinedText (n : Int) (u : Nat) {word : List Char} (hword : ':' ∉ word) :
    (joinedText n u word).splitOn ':' = [(toString n).toList, Nat.toDigits 16 u, word] := by
  have hdecimal := IntegerField.not_mem_text_ofInt (by decide) (by decide : ':' ∉ alphabetOf 'd') n
  have hhexadecimal :=
    IntegerField.not_mem_text_ofInt (by decide) (by decide : ':' ∉ alphabetOf 'x') u
  rw [IntegerField.text_ofInt_decimal] at hdecimal
  rw [IntegerField.text_ofInt_hexadecimal] at hhexadecimal
  refine List.splitOn_intercalate ':' ?_ (List.cons_ne_nil _ _)
  simp only [List.forall_mem_cons]
  exact ⟨hdecimal, hhexadecimal, hword, List.forall_mem_nil _⟩

end Joined

/-- **Integers read back.** On every engine an integer is printed as a field that shows the
number in the low bits of the argument, and the field is as long as the greater of its width and
the text that the same directive has without a width. So a number in decimal, a number in
hexadecimal and a word with colons between them are printed on every engine as these three parts,
and read back by a cut at the colons. -/
theorem integers_read_back (surplus : List Argument) :
    (∀ (d : Written) (letter : Char) (w : UInt64), d.Plain → d.precision = none →
      letter ∈ ['d', 'i', 'u', 'x', 'X', 'o'] →
      ∃ field bare : IntegerField,
        (∀ (engine : Engine) (entry : EntryPoint) (fmt : Bytes), fmt.untilZero = d.format letter →
          Prints engine entry fmt (d.amountArgs ++ .word w :: surplus) field.text) ∧
        (∀ (engine : Engine) (entry : EntryPoint) (fmt : Bytes),
          fmt.untilZero = { d with width := .digits [] }.format letter →
          Prints engine entry fmt (.word w :: surplus) bare.text) ∧
        field.Shows d.flags letter (integerIn letter d.length w) ∧
        bare.Shows d.flags letter (integerIn letter d.length w) ∧
        field.text.length = max d.width.value bare.text.length) ∧
    (∀ (n : Int32) (u : UInt32) (word : List Char) (w v : UInt64) (bs fmt : Bytes),
      (∀ c ∈ word, c.isAlphanum = true) → (Utf8.encode word).length ≤ Freestanding.maxAmount →
      w.toUInt32 = n.toUInt32 → v.toUInt32 = u → bs.untilZero = Utf8.encode word →
      fmt.untilZero = Utf8.encode "%d:%x:%s".toList →
        (∀ (engine : Engine) (entry : EntryPoint),
          Prints engine entry fmt (.word w :: .word v :: .text bs :: surplus)
            (joinedText n.toInt u.toNat word)) ∧
        (joinedText n.toInt u.toNat word).splitOn ':' =
          [(toString n.toInt).toList, Nat.toDigits 16 u.toNat, word]) := by
  refine ⟨fun d letter w hd hprecision hletter => ?_,
    fun n u word w v bs fmt hword hlength hw hv hbs hfmt => ?_⟩
  · have hbare := hd.withoutWidth
    refine ⟨.ofInt d.flags d.width.value letter (integerIn letter d.length w),
      .ofInt d.flags 0 letter (integerIn letter d.length w), fun engine entry fmt hfmt => ?_,
      fun engine entry fmt hfmt => ?_, IntegerField.ofInt_shows .., IntegerField.ofInt_shows ..,
      IntegerField.length_text_ofInt ..⟩
    · exact hd.prints_integer hprecision hletter w surplus engine entry hfmt
    · have hargs : Written.amountArgs { d with width := .digits [] } = [] := by
        simp [Written.amountArgs, Size.args, hprecision]
      have hprints := hbare.prints_integer hprecision hletter w surplus engine entry hfmt
      rw [hargs] at hprints
      exact hprints
  · refine ⟨prints_joinedText hw hv hbs hlength hfmt surplus,
      splitOn_joinedText _ _ fun hcolon => ?_⟩
    exact absurd (hword ':' hcolon) (by decide)

/-- The least number of one byte, in a word with other bits above it and in a field filled by zeros;
and the least number of four bytes, with the greatest one and a word. -/
theorem integers_read_back_least :
    (∃ field bare : IntegerField,
      (∀ (engine : Engine) (entry : EntryPoint),
        Prints engine entry (Utf8.encode "%+0+*hhd".toList) [.word 9, .word 0x7f80] field.text) ∧
      (∀ (engine : Engine) (entry : EntryPoint),
        Prints engine entry (Utf8.encode "%+0+hhd".toList) [.word 0x7f80] bare.text) ∧
      field.Shows ['+', '0', '+'] 'd' (-128) ∧ bare.Shows ['+', '0', '+'] 'd' (-128) ∧
      field.text.length = max 9 bare.text.length) ∧
    (∀ (engine : Engine) (entry : EntryPoint),
      Prints engine entry (Utf8.encode "%d:%x:%s".toList)
        [.word 0x80000000, .word 0xffffffff, .text (Utf8.encode "a1B".toList)]
        (joinedText (-2147483648) 0xffffffff "a1B".toList)) := by
  obtain ⟨field, bare, hfield, hbare, hshows, hshows', hlength⟩ := (integers_read_back []).1
    { flags := ['+', '0', '+'], width := .star 9, precision := none, length := .char } 'd' 0x7f80
    (by decide +kernel) rfl (by decide)
  have hvalue : (Size.star 9).value = 9 := by decide +kernel
  have hnumber : integerIn 'd' .char 0x7f80 = -128 := by decide +kernel
  rw [hvalue] at hlength
  rw [hnumber] at hshows hshows'
  refine ⟨⟨field, bare, fun engine entry => hfield engine entry _ (by decide +kernel),
    fun engine entry => hbare engine entry _ (by decide +kernel), hshows, hshows', hlength⟩, ?_⟩
  exact ((integers_read_back []).2 (-2147483648) 0xffffffff "a1B".toList 0x80000000 0xffffffff _ _
    (forall_mem_of_all (by decide +kernel)) (by decide +kernel) (by decide +kernel)
      (by decide +kernel)
    (by decide +kernel) (by decide +kernel)).1

end FormattedOutput
