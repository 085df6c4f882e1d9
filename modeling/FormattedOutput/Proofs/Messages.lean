import FormattedOutput.Proofs.Digits
import FormattedOutput.Selection.Choice

/-! Messages read back. Quoted texts, lists of them and targets are written so that a text shows
where they end and which they are (`SelfDelimiting`), whatever stands behind them and whichever
characters count as hidden. So the message of an error shows all of the error. -/

namespace FormattedOutput

/-! ## Self-delimiting texts -/

/-- A way to write values in which a text shows where its first value ends,
and which value that is. -/
def SelfDelimiting {α : Type} (write : α → List Char) : Prop :=
  ∀ ⦃a b : α⦄ ⦃rest rest' : List Char⦄, write a ++ rest = write b ++ rest' → a = b ∧ rest = rest'

/-- Values one after the other, up to a character with which none of them starts. -/
theorem SelfDelimiting.flatMap_stop {α : Type} {write : α → List Char} {stop : Char}
    (H : SelfDelimiting write) (hstop : ∀ a rest rest', write a ++ rest ≠ stop :: rest') :
    SelfDelimiting fun as : List α => as.flatMap write ++ [stop] := by
  intro as bs rest rest' h
  simp only [List.append_assoc, List.singleton_append] at h
  induction as generalizing bs with
  | nil =>
    cases bs with
    | nil => exact ⟨rfl, (List.cons.inj h).2⟩
    | cons b bs =>
      rw [List.flatMap_cons, List.append_assoc] at h
      exact absurd h.symm (hstop b _ rest)
  | cons a as ih =>
    rw [List.flatMap_cons, List.append_assoc] at h
    cases bs with
    | nil => exact absurd h (hstop a _ rest')
    | cons b bs =>
      rw [List.flatMap_cons, List.append_assoc] at h
      obtain ⟨rfl, hlater⟩ := H h
      obtain ⟨rfl, hrest⟩ := ih hlater
      exact ⟨rfl, hrest⟩

/-! ## Quoted texts -/

namespace Text

variable {isHidden : Char → Bool} {c d : Char}

/-- The characters that have an escape of their own, and the letters of these escapes. -/
def namedEscapes : List (Char × Char) :=
  [('\x00', '0'), ('\t', 't'), ('\r', 'r'), ('\n', 'n'), ('\\', '\\'), ('"', '"')]

/-- What may be written for a character. -/
inductive Escaped (c : Char) : List Char → Prop where
  | plain (hbackslash : c ≠ '\\') (hquote : c ≠ '"') : Escaped c [c]
  | named {letter : Char} (h : (c, letter) ∈ namedEscapes) : Escaped c ['\\', letter]
  | codePoint : Escaped c (codePointEscape c)

theorem escaped_escapeChar (isHidden : Char → Bool) (c : Char) :
    Escaped c (escapeChar isHidden c) := by
  fun_cases escapeChar isHidden c with
  | case1 | case2 | case3 | case4 | case5 | case6 => exact .named (by decide)
  | case7 => exact .codePoint
  | case8 _ _ _ _ _ hbackslash hquote => exact .plain hbackslash hquote

/-- No two characters share the letter of an escape. -/
theorem eq_of_mem_namedEscapes {letter : Char} (hc : (c, letter) ∈ namedEscapes)
    (hd : (d, letter) ∈ namedEscapes) : c = d := by
  simp only [namedEscapes, List.mem_cons, Prod.mk.injEq, List.not_mem_nil, or_false] at hc hd
  rcases hc with ⟨rfl, rfl⟩ | ⟨rfl, rfl⟩ | ⟨rfl, rfl⟩ | ⟨rfl, rfl⟩ | ⟨rfl, rfl⟩ | ⟨rfl, rfl⟩ <;>
    simp_all

theorem ne_codePointLetter {letter : Char} (hc : (c, letter) ∈ namedEscapes) : letter ≠ 'u' := by
  rintro rfl
  simp [namedEscapes] at hc

/-- The digits of a code point end at the closing brace, which is none of them. -/
theorem codePointEscape_selfDelimiting : SelfDelimiting codePointEscape := by
  intro c d rest rest' h
  have hdigits (c : Char) : '\x7d' ∉ Nat.toDigits 16 c.toNat := by
    intro hmem
    rw [← List.map_id (Nat.toDigits 16 c.toNat)] at hmem
    exact absurd (spells_hexadecimal.mem_of_mem_map hmem) (by decide)
  simp only [codePointEscape, List.append_assoc, List.append_cancel_left_eq,
    List.singleton_append] at h
  have hcut := congrArg (List.splitOn '\x7d') h
  rw [List.splitOn_append_cons_self_of_not_mem (hdigits c),
    List.splitOn_append_cons_self_of_not_mem (hdigits d)] at hcut
  have hsame := (List.cons.inj hcut).1
  rw [hsame] at h
  exact ⟨Char.toNat_inj.1 (spells_hexadecimal.toDigits_inj hsame),
    (List.cons.inj (List.append_cancel_left h)).2⟩

theorem Escaped.unique {e e' rest rest' : List Char} (H : Escaped c e) (H' : Escaped d e')
    (h : e ++ rest = e' ++ rest') : c = d ∧ rest = rest' := by
  cases H with
  | plain hbackslash hquote =>
    cases H' with
    | plain => exact List.cons.inj h
    | named | codePoint => exact absurd (List.cons.inj h).1 hbackslash
  | named hc =>
    cases H' with
    | plain hbackslash hquote => exact absurd (List.cons.inj h).1.symm hbackslash
    | named hd =>
      obtain ⟨hletter, hrest⟩ := List.cons.inj (List.cons.inj h).2
      subst hletter
      exact ⟨eq_of_mem_namedEscapes hc hd, hrest⟩
    | codePoint => exact absurd (List.cons.inj (List.cons.inj h).2).1 (ne_codePointLetter hc)
  | codePoint =>
    cases H' with
    | plain hbackslash hquote => exact absurd (List.cons.inj h).1.symm hbackslash
    | named hd => exact absurd (List.cons.inj (List.cons.inj h).2).1.symm (ne_codePointLetter hd)
    | codePoint => exact codePointEscape_selfDelimiting h

theorem Escaped.ne_quote {e rest rest' : List Char} (H : Escaped c e) :
    e ++ rest ≠ '"' :: rest' := by
  intro h
  cases H with
  | plain _ hquote => exact hquote (List.cons.inj h).1
  | named | codePoint => exact absurd (List.cons.inj h).1 (by decide)

/-- A quoted text ends at the first quote that is not part of an escape. -/
theorem quoteWith_selfDelimiting (isHidden : Char → Bool) :
    SelfDelimiting (quoteWith isHidden) := by
  intro cs ds rest rest' h
  have hinside : SelfDelimiting fun cs : List Char => cs.flatMap (escapeChar isHidden) ++ ['"'] :=
    SelfDelimiting.flatMap_stop
      (fun c d _ _ h => (escaped_escapeChar isHidden c).unique (escaped_escapeChar isHidden d) h)
      fun c _ _ => (escaped_escapeChar isHidden c).ne_quote
  exact hinside (List.cons.inj h).2

/-- A list of quoted texts, behind its opening bracket. -/
def listRest (isHidden : Char → Bool) : List String → List Char
  | [] => [']']
  | s :: ss => quoteWith isHidden s.toList ++
      (ss.flatMap (fun s => [',', ' '] ++ quoteWith isHidden s.toList) ++ [']'])

theorem intercalate_cons (sep first : List Char) (others : List (List Char)) :
    sep.intercalate (first :: others) = first ++ others.flatMap (sep ++ ·) := by
  induction others generalizing first with
  | nil => simp
  | cons other others ih => rw [List.intercalate_cons_cons, ih, List.flatMap_cons]; simp

theorem toList_quoteList (ss : List String) (isHidden : Char → Bool) :
    (quoteList ss isHidden).toList = '[' :: listRest isHidden ss := by
  have hquote : String.toList ∘ (quote · isHidden) = fun s => quoteWith isHidden s.toList := by
    funext s
    exact String.toList_ofList
  rw [quoteList, String.toList_append, String.toList_append, String.toList_intercalate,
    List.map_map, hquote]
  cases ss with
  | nil => rfl
  | cons s ss =>
    rw [List.map_cons, intercalate_cons, List.flatMap_map, listRest]
    simp

theorem quoteList_selfDelimiting (isHidden : Char → Bool) :
    SelfDelimiting fun ss => (quoteList ss isHidden).toList := by
  have hquote := quoteWith_selfDelimiting isHidden
  -- behind the first text each one follows a comma, up to the closing bracket
  have hlater : SelfDelimiting fun ss : List String =>
      ss.flatMap (fun s => [',', ' '] ++ quoteWith isHidden s.toList) ++ [']'] := by
    refine SelfDelimiting.flatMap_stop (fun s t rest rest' h => ?_) (fun s rest rest' h => ?_)
    · obtain ⟨hs, hrest⟩ := hquote (List.cons.inj (List.cons.inj h).2).2
      exact ⟨String.toList_inj.1 hs, hrest⟩
    · exact absurd (List.cons.inj h).1 (by decide)
  intro ss ts rest rest' h
  simp only [toList_quoteList] at h
  have hopen : listRest isHidden ss ++ rest = listRest isHidden ts ++ rest' := (List.cons.inj h).2
  cases ss with
  | nil =>
    cases ts with
    | nil => exact ⟨rfl, (List.cons.inj hopen).2⟩
    | cons t ts => exact absurd (List.cons.inj hopen).1 (by decide)
  | cons s ss =>
    cases ts with
    | nil => exact absurd (List.cons.inj hopen).1 (by decide)
    | cons t ts =>
      simp only [listRest] at hopen
      rw [List.append_assoc, List.append_assoc (quoteWith isHidden t.toList)] at hopen
      obtain ⟨hfirst, hmore⟩ := hquote hopen
      obtain ⟨rfl, hrest⟩ := hlater hmore
      exact ⟨by rw [String.toList_inj.1 hfirst], hrest⟩

end Text

/-! ## Messages -/

namespace Selection

theorem Target.describe_selfDelimiting (isHidden : Char → Bool) :
    SelfDelimiting fun t : Target => (t.describe isHidden).toList := by
  have hquote : SelfDelimiting fun s => (Text.quote s isHidden).toList := by
    intro s t rest rest' h
    simp only [Text.quote, String.toList_ofList] at h
    obtain ⟨hs, hrest⟩ := Text.quoteWith_selfDelimiting isHidden h
    exact ⟨String.toList_inj.1 hs, hrest⟩
  intro t t' rest rest' h
  unfold describe at h
  simp only [String.toList_append, List.append_assoc, List.append_cancel_left_eq] at h
  obtain ⟨hos, hbehind⟩ := hquote h
  obtain ⟨henv, hbehind⟩ := hquote (List.append_cancel_left hbehind)
  obtain ⟨habi, hbehind⟩ := hquote (List.append_cancel_left hbehind)
  obtain ⟨hfamily, hbehind⟩ :=
    Text.quoteList_selfDelimiting isHidden (List.append_cancel_left hbehind)
  refine ⟨?_, List.append_cancel_left hbehind⟩
  cases t
  cases t'
  simp only [mk.injEq]
  exact ⟨hos, henv, habi, hfamily⟩

namespace ChoiceError

/-- **Messages.** Whichever characters count as hidden, the message of a target without an
engine shows the target, the message of a contradiction shows the list of features, and no
message can be of both kinds. -/
theorem message_shows_error (isHidden : Char → Bool) :
    (∀ t t' : Target, (noEngine t).message isHidden = (noEngine t').message isHidden ↔ t = t') ∧
    (∀ features features' : List String,
      (conflictingOverrides features).message isHidden =
        (conflictingOverrides features').message isHidden ↔
        features = features') ∧
    ∀ (t : Target) (features : List String),
      (noEngine t).message isHidden ≠ (conflictingOverrides features).message isHidden := by
  refine ⟨fun t t' => ⟨fun h => ?_, fun h => h ▸ rfl⟩,
    fun features features' => ⟨fun h => ?_, fun h => h ▸ rfl⟩, fun t features h => ?_⟩
  · have hlist := congrArg String.toList h
    unfold message at hlist
    simp only [String.toList_append, List.append_assoc, List.append_cancel_left_eq] at hlist
    exact (Target.describe_selfDelimiting isHidden hlist).1
  · have hlist := congrArg String.toList h
    unfold message at hlist
    simp only [String.toList_append, List.append_assoc, List.append_cancel_left_eq] at hlist
    exact (Text.quoteList_selfDelimiting isHidden hlist).1
  · -- the two kinds differ in their first letter
    have hfirst := congrArg (fun s => s.toList.head?) h
    unfold message at hfirst
    simp [String.toList_append] at hfirst

end ChoiceError

end Selection

end FormattedOutput
