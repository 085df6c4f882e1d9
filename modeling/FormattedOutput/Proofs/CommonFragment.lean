import FormattedOutput.Proofs.BoundedWrite
import FormattedOutput.Proofs.Conversions

/-! The fragment on which the two format languages agree. `Converts` lists the
conversions, and `Piece` the parts of a format. One directive writes the same bytes in
both languages (`Converts.performsAlike`), and by induction along the pieces so does a
whole format (`Piece.runsAlike`). -/

namespace FormattedOutput

open Number

/-! ## Runs that write the same -/

/-- A write that is done, has stored no count and has offered some bytes. -/
structure Outcome.Writes (o : Outcome) (bytes : Bytes) : Prop where
  ending : o.ending = .done
  stores : o.stores = []
  bytes_eq : o.bytes = bytes

theorem Outcome.Writes.offer {o : Outcome} {bytes : Bytes} (H : o.Writes bytes)
    (text : Rope UInt8) :
    (o.offer text).Writes (text.toList ++ bytes) :=
  ⟨H.ending, H.stores, by rw [Outcome.bytes_offer, H.bytes_eq]⟩

/-- A text that an `int` can count with all before it, and what is written after it. -/
theorem Hosted.proceed_writes {written : Nat} (text : Rope UInt8) {later : Nat → Outcome}
    {bytes : Bytes} (hmax : written + text.length ≤ Hosted.maxInt)
    (H : (later (written + text.length)).Writes bytes) :
    (Hosted.proceed written text later).Writes (text.toList ++ bytes) := by
  have hcount : ¬ Hosted.maxInt < written + text.length := Nat.not_lt.2 hmax
  simp only [Hosted.proceed, if_neg hcount]
  exact H.offer text

/-- Two writes offer the same bytes. The host's depends on how much was written before, as an `int`
has to count all of it. -/
def RunsAlike (free : Outcome) (host : Nat → Outcome) : Prop :=
  ∃ bytes, free.Writes bytes ∧
    ∀ written, written + bytes.length ≤ Hosted.maxInt → (host written).Writes bytes

theorem runsAlike_finish : RunsAlike (.finish .done) (fun _ => .finish .done) :=
  ⟨[], ⟨rfl, rfl, rfl⟩, fun _ _ => ⟨rfl, rfl, rfl⟩⟩

theorem Agrees.runsAlike {a : Freestanding.Attempt} {text : Rope UInt8} (H : Agrees a text)
    {free : Outcome} {host : Nat → Outcome} (hlater : RunsAlike free host) :
    RunsAlike (a.andThen free) (fun written => Hosted.proceed written text host) := by
  obtain ⟨cs, rfl, htext⟩ := H
  obtain ⟨bytes, hfree, hhost⟩ := hlater
  refine ⟨text.toList ++ bytes, ?_, fun written hmax => ?_⟩
  · have hoffer := hfree.offer (Utf8.encodeRope cs)
    rwa [Utf8.toList_encodeRope, ← htext] at hoffer
  · rw [List.length_append, Rope.length_toList] at hmax
    exact Hosted.proceed_writes text (by omega) (hhost _ (by omega))

/-- A directive writes the same in both languages, leaves the same arguments,
and the host stays strict. -/
def PerformsAlike (free : Freestanding.Spec) (host : Hosted.Spec) (letter : UInt8) (s s' : Supply) :
    Prop :=
  host.manner (some letter) = .ok .strict ∧
    ∃ a text, Agrees a text ∧ Freestanding.perform free letter s = some (a, s') ∧
      ∀ errno, Hosted.perform .strict errno host (some letter) s = some (.write text, s')

theorem PerformsAlike.runsAlike {free : Freestanding.Spec} {host : Hosted.Spec} {letter : UInt8}
    {s s' : Supply} (H : PerformsAlike free host letter s s')
    {freeItems : List (Item Freestanding.Spec)} {hostItems : List (Item Hosted.Spec)} {errno : Int}
    (hlater : RunsAlike (Freestanding.run freeItems s') (Hosted.run errno hostItems .strict s')) :
    RunsAlike (Freestanding.run (.directive free letter :: freeItems) s)
      (Hosted.run errno (.directive host letter :: hostItems) .strict s) := by
  obtain ⟨hmanner, a, text, hagrees, hfree, hhost⟩ := H
  have hrun (written : Nat) :
      Hosted.run errno (.directive host letter :: hostItems) .strict s written =
      Hosted.proceed written text (Hosted.run errno hostItems .strict s') := by
    simp only [Hosted.run, Hosted.step, Hosted.Manner.next, hmanner, hhost, Hosted.Effect.andThen]
  rw [Freestanding.run, hfree, funext hrun]
  exact hagrees.runsAlike hlater

/-! ## Conversions -/

/-- The conversions that mean the same in both languages, by a directive, its
letter and its argument. -/
inductive Converts (d : Written) : Char → Argument → Prop where
  | integer {letter : Char} {w : UInt64} (hletter : letter ∈ ['d', 'i', 'u', 'x', 'X', 'o'])
      (hprecision : d.precision = none) : Converts d letter (.word w)
  | fixed {bits : UInt64} {coefficient : Nat} {exponent : Int} (hlength : d.length = .int)
      (hfinite : (Binary64.ofBits bits).magnitude = .finite coefficient exponent) :
      Converts d 'f' (.double bits)
  | character {w : UInt64} (hlength : d.length = .int) (hascii : w.toUInt8 < 0x80) :
      Converts d 'c' (.word w)
  | text {bs : Bytes} (hlength : d.length = .int) (hfits : d.FitsText bs.untilZero)
      (hrange : d.precision = none → bs.untilZero.length ≤ Freestanding.maxAmount) :
      Converts d 's' (.text bs)

theorem Freestanding.perform_of_apply {spec : Spec} {letter : UInt8} {s : Supply} {l : Layout}
    {arg : Argument} {all rest : List Argument} {a : Attempt}
    (hsettle : spec.settle s = some (l, ⟨all, arg :: rest⟩))
    (happly : (Conversion.ofLetter letter).apply l arg = some a) :
    perform spec letter s = some (a, ⟨all, rest⟩) := by
  rw [perform, hsettle, Option.bind_eq_bind, Option.bind_some]
  cases hc : Conversion.ofLetter letter <;> simp_all [Conversion.apply, Supply.take]

theorem Hosted.perform_of_apply {manner : Manner} {errno : Int} {spec : Spec} {letter : UInt8}
    {s : Supply} {l : Layout} {arg : Argument} {all rest : List Argument} {e : Effect}
    (hsource : spec.source = .next)
    (hsettle : spec.settle manner s = some (l, ⟨all, arg :: rest⟩))
    (happly : (Conversion.ofLetter letter).apply l arg = some e) :
    perform manner errno spec (some letter) s = some (e, ⟨all, rest⟩) := by
  rw [perform, hsettle, Option.bind_eq_bind, Option.bind_some]
  cases hc : Conversion.ofLetter letter <;>
    simp_all [Conversion.apply, Conversion.perform, Supply.take]

namespace Converts

variable {d : Written} {letter : Char} {arg : Argument}

theorem mem_sharedLetters (H : Converts d letter arg) : letter ∈ sharedLetters := by
  have hall : ∀ c ∈ ['d', 'i', 'u', 'x', 'X', 'o'], c ∈ sharedLetters :=
    forall_mem_of_all (by decide)
  cases H with
  | integer hletter hprecision => exact hall letter hletter
  | fixed | character | text => decide

/-- Every length goes with the letters of integers, and no other letter is written with one. -/
theorem takes_length (H : Converts d letter arg) :
    (Hosted.Conversion.ofLetter letter.toUInt8).takes d.length = true := by
  cases H with
  | integer hletter hprecision =>
    simp only [List.mem_cons, List.not_mem_nil, or_false] at hletter
    rcases hletter with rfl | rfl | rfl | rfl | rfl | rfl <;> cases d.length <;> rfl
  | fixed hlength | character hlength | text hlength =>
    rw [hlength]
    rfl

theorem apply_agrees (hd : d.Plain) (H : Converts d letter arg) :
    ∃ a text, Agrees a text ∧
      (Freestanding.Conversion.ofLetter letter.toUInt8).apply d.freestandingLayout arg = some a ∧
      (Hosted.Conversion.ofLetter letter.toUInt8).apply d.hostedLayout arg =
        some (.write text) := by
  cases H with
  | @integer _ w hletter hprecision =>
    simp only [List.mem_cons, List.not_mem_nil, or_false] at hletter
    rcases hletter with rfl | rfl | rfl | rfl | rfl | rfl
    · exact ⟨_, _, hd.signedInteger_agrees hprecision w, rfl, rfl⟩
    · exact ⟨_, _, hd.signedInteger_agrees hprecision w, rfl, rfl⟩
    · exact ⟨_, _, hd.unsignedInteger_agrees hprecision .decimal _ w, rfl, rfl⟩
    · exact ⟨_, _, hd.unsignedInteger_agrees hprecision .hexadecimal _ w, rfl, rfl⟩
    · exact ⟨_, _, hd.unsignedInteger_agrees hprecision .upperHexadecimal _ w, rfl, rfl⟩
    · exact ⟨_, _, hd.unsignedInteger_agrees hprecision .octal _ w, rfl, rfl⟩
  | fixed hlength hfinite => exact ⟨_, _, hd.fixed_agrees hfinite, rfl, rfl⟩
  | character hlength hascii =>
    have hnarrow : Hosted.wideLength d.hostedLayout.length = false :=
      congrArg Hosted.wideLength hlength
    exact ⟨_, _, hd.character_agrees hascii, rfl, if_neg (by simpa using hnarrow)⟩
  | text hlength hfits hrange =>
    have hnarrow : Hosted.wideLength d.hostedLayout.length = false :=
      congrArg Hosted.wideLength hlength
    exact ⟨_, _, hd.text_agrees hfits hrange, rfl, if_neg (by simpa using hnarrow)⟩

theorem performsAlike (hd : d.Plain) (H : Converts d letter arg) (all rest : List Argument) :
    PerformsAlike d.freestanding d.hosted letter.toUInt8 ⟨all, d.amountArgs ++ arg :: rest⟩
      ⟨all, rest⟩ := by
  obtain ⟨a, text, hagrees, hfree, hhost⟩ := H.apply_agrees hd
  refine ⟨?_, a, text, hagrees, ?_, fun errno => ?_⟩
  · simp [Hosted.Spec.manner, Written.hosted, H.takes_length]
  · exact Freestanding.perform_of_apply (Written.freestanding_settle hd.wellFormed _ _) hfree
  · exact Hosted.perform_of_apply rfl (Written.hosted_settle hd.wellFormed _ _) hhost

end Converts

/-! ## Formats -/

/-- A directive that has nothing but its letter. -/
def Written.bare : Written :=
  { flags := [], width := .digits [], precision := none, length := .int }

theorem Written.bare_plain : Written.bare.Plain := by decide

/-! A directive without anything reaches the percent sign behind it. -/

theorem Written.bare_behind_freestanding (later : Bytes) :
    Template.behind Freestanding.Spec.scan (percent :: later) =
      .directive bare.freestanding percent :: Template.parse Freestanding.Spec.scan later := by
  have hscan : Freestanding.Spec.scan [] = (bare.freestanding, []) := rfl
  exact Template.behind_percentSign List.not_mem_nil hscan later

theorem Written.bare_behind_hosted (later : Bytes) :
    Template.behind Hosted.Spec.scan (percent :: later) =
      .directive bare.hosted percent :: Template.parse Hosted.Spec.scan later := by
  have hscan : Hosted.Spec.scan [] = (bare.hosted, []) := rfl
  exact Template.behind_percentSign List.not_mem_nil hscan later

/-- Literal text is written as a text without a field. -/
theorem literal_agrees {bs : Bytes} (hvalid : Utf8.Valid bs)
    (hlength : bs.length ≤ Freestanding.maxAmount) :
    Agrees (Freestanding.literal bs) (.ofList bs) := by
  obtain ⟨cs, hfree, hhost⟩ :=
    Written.bare_plain.text_agrees (.whole hvalid rfl rfl) fun _ => hlength
  refine ⟨cs, hfree, ?_⟩
  have hwidth (n : Nat) : Written.bare.hostedLayout.widthFor n = 0 :=
    Hosted.widthFor_eq (by decide) n
  rw [← hhost, Hosted.text, Hosted.bytesField, hwidth, toList_pad]
  simp [Hosted.Layout.cut, Written.hostedLayout, Written.bare]

theorem percentSign_performsAlike (s : Supply) :
    PerformsAlike Written.bare.freestanding Written.bare.hosted percent s s := by
  have hencode : Utf8.encode ['%'] = [percent] := by decide
  refine ⟨rfl, .write (.ofList ['%']), .ofList [percent], ⟨_, rfl, ?_⟩, rfl, fun errno => rfl⟩
  rw [Rope.toList_ofList, Rope.toList_ofList, hencode]

/-- Literal text, a directive that writes the same in both languages, and the rest of a format. -/
theorem PerformsAlike.runsAlike_parse {free : Freestanding.Spec} {host : Hosted.Spec}
    {letter : UInt8} {s s' : Supply} (H : PerformsAlike free host letter s s') {errno : Int}
    {front later rest : Bytes} (hvalid : Utf8.Valid front) (hfront : percent ∉ front)
    (hlength : front.length ≤ Freestanding.maxAmount)
    (hfree : Template.behind Freestanding.Spec.scan later =
      .directive free letter :: Template.parse Freestanding.Spec.scan rest)
    (hhost : Template.behind Hosted.Spec.scan later =
      .directive host letter :: Template.parse Hosted.Spec.scan rest)
    (hrest : RunsAlike (Freestanding.run (Template.parse Freestanding.Spec.scan rest) s')
      (Hosted.run errno (Template.parse Hosted.Spec.scan rest) .strict s')) :
    RunsAlike
      (Freestanding.run (Template.parse Freestanding.Spec.scan (front ++ percent :: later)) s)
      (Hosted.run errno (Template.parse Hosted.Spec.scan (front ++ percent :: later))
        .strict s) := by
  rw [Template.parse_append_percent hfront, Template.parse_append_percent hfront, hfree, hhost]
  exact (literal_agrees hvalid hlength).runsAlike (H.runsAlike hrest)

/-- A part of a format, with the argument that it converts. -/
inductive Piece where
  | literal (text : Bytes)
  /-- A percent sign, written twice. -/
  | percentSign
  | directive (d : Written) (letter : Char) (arg : Argument)

namespace Piece

/-- How a piece is written in a format. -/
def format : Piece → Bytes
  | literal text => text
  | percentSign => [percent, percent]
  | directive d letter _ => percent :: (bytesOf d.text ++ [letter.toUInt8])

/-- The arguments that a piece takes. -/
def args : Piece → List Argument
  | literal _ | percentSign => []
  | directive d _ arg => d.amountArgs ++ [arg]

/-- Whether a piece means the same in both languages. -/
def Shared : Piece → Prop
  | literal text => Utf8.Valid text ∧ percent ∉ text
  | percentSign => True
  | directive d letter arg => d.Plain ∧ Converts d letter arg

/-- The literal text in front of the first other piece. -/
def leading : List Piece → Bytes
  | literal text :: pieces => text ++ leading pieces
  | _ => []

/-- No stretch of literal text has more than some number of bytes. -/
def LiteralsAtMost (most : Nat) : List Piece → Prop
  | [] => True
  | p :: pieces => (leading (p :: pieces)).length ≤ most ∧ LiteralsAtMost most pieces

instance decidableLiteralsAtMost (most : Nat) : DecidablePred (LiteralsAtMost most)
  | [] => inferInstanceAs (Decidable True)
  | _ :: pieces =>
    have := decidableLiteralsAtMost most pieces
    inferInstanceAs (Decidable (_ ∧ _))

theorem LiteralsAtMost.leading_le {most : Nat} {pieces : List Piece}
    (H : LiteralsAtMost most pieces) :
    (leading pieces).length ≤ most := by
  cases pieces with
  | nil => exact Nat.zero_le most
  | cons p pieces => exact H.1

/-- Shared pieces write the same in both languages. -/
theorem runsAlike (errno : Int) (all surplus : List Argument) {pieces : List Piece}
    (hpieces : ∀ p ∈ pieces, p.Shared) (hmost : LiteralsAtMost Freestanding.maxAmount pieces)
    {front : Bytes} (hvalid : Utf8.Valid front) (hfront : percent ∉ front)
    (hlength : (front ++ leading pieces).length ≤ Freestanding.maxAmount) :
    RunsAlike
      (Freestanding.run (Template.parse Freestanding.Spec.scan (front ++ pieces.flatMap format))
        ⟨all, pieces.flatMap args ++ surplus⟩)
      (Hosted.run errno (Template.parse Hosted.Spec.scan (front ++ pieces.flatMap format)) .strict
        ⟨all, pieces.flatMap args ++ surplus⟩) := by
  -- a format does not show where one literal piece ends and the next starts: `front` gathers them
  induction pieces generalizing front with
  | nil =>
    simp only [leading, List.append_nil] at hlength
    rw [List.flatMap_nil, List.append_nil, Template.parse_of_not_mem hfront,
      Template.parse_of_not_mem hfront]
    exact (literal_agrees hvalid hlength).runsAlike runsAlike_finish
  | cons p pieces ih =>
    obtain ⟨hp, hlater⟩ := List.forall_mem_cons.1 hpieces
    obtain ⟨-, hmost⟩ := hmost
    simp only [List.flatMap_cons]
    cases p with
    | literal text =>
      rw [leading, ← List.append_assoc] at hlength
      rw [← List.append_assoc]
      refine ih hlater hmost (hvalid.append hp.1) ?_ hlength
      exact fun h => (List.mem_append.1 h).elim hfront hp.2
    | percentSign =>
      simp only [leading, List.append_nil] at hlength
      exact (percentSign_performsAlike _).runsAlike_parse hvalid hfront hlength
        (Written.bare_behind_freestanding _) (Written.bare_behind_hosted _)
        (ih hlater hmost Utf8.valid_nil List.not_mem_nil hmost.leading_le)
    | directive d letter arg =>
      obtain ⟨hd, hconverts⟩ := hp
      simp only [leading, List.append_nil] at hlength
      have hletter := hconverts.mem_sharedLetters
      have hformat : (directive d letter arg).format ++ pieces.flatMap format =
          percent :: (bytesOf d.text ++ letter.toUInt8 :: pieces.flatMap format) := by
        simp [format]
      have hargs : (directive d letter arg).args ++ pieces.flatMap args ++ surplus =
          d.amountArgs ++ arg :: (pieces.flatMap args ++ surplus) := by
        simp [args]
      rw [hformat, hargs]
      exact (hconverts.performsAlike hd all _).runsAlike_parse hvalid hfront hlength
        (Written.behind_freestanding hd.wellFormed.readable hletter _)
        (Written.behind_hosted hd.wellFormed hletter _)
        (ih hlater hmost Utf8.valid_nil List.not_mem_nil hmost.leading_le)

end Piece

namespace Site

variable {engine : Engine} {entry : EntryPoint} {fmt : Bytes} {args : List Argument} {errno : Int}
  {bytes : Bytes}

theorem call_of_writes (H : (entry.outcome engine fmt args errno).Writes bytes) (c : Site) :
    c.call engine entry fmt args errno =
      .returned { value := bytes.length, errno, cells := c.cells,
                  buffer := Buffer.store c.buffer c.start c.capacity (.ofList bytes) } := by
  have htext : (entry.outcome engine fmt args errno).text.toList = bytes := H.bytes_eq
  have hlength : (entry.outcome engine fmt args errno).text.length = bytes.length := by
    rw [← Rope.length_toList, htext]
  rw [call_eq, Outcome.result_of_done H.ending, H.stores, hlength]
  simp only [Buffer.store, Rope.take_eq, htext, Rope.toList_ofList, List.foldl_nil]
  rfl

/-- **The common fragment.** A format of pieces that mean the same in both languages comes to one
text. At every site, every engine returns the length of that text, keeps the error number, stores no
count and leaves the same buffer, which has the text cut to the room there is. -/
theorem engines_agree_on_shared_pieces (pieces : List Piece) (surplus : List Argument) (fmt : Bytes)
    (errno : Int) (hpieces : ∀ p ∈ pieces, p.Shared)
    (hfmt : fmt.untilZero = pieces.flatMap Piece.format)
    (hmost : Piece.LiteralsAtMost Freestanding.maxAmount pieces)
    (hlength :
      (Freestanding.format fmt.untilZero (pieces.flatMap Piece.args ++ surplus)).text.length ≤
        Hosted.maxInt) :
    ∃ text : Bytes, ∀ c : Site, ∃ new : Bytes,
      new.HoldsCut c.buffer c.start c.capacity text ∧
      ∀ (engine : Engine) (entry : EntryPoint),
        c.call engine entry fmt (pieces.flatMap Piece.args ++ surplus) errno =
          .returned { value := text.length, errno, buffer := new, cells := c.cells } := by
  obtain ⟨bytes, hfree, hhost⟩ :=
    Piece.runsAlike errno (pieces.flatMap Piece.args ++ surplus) surplus hpieces hmost
      Utf8.valid_nil List.not_mem_nil hmost.leading_le
  rw [List.nil_append, ← hfmt] at hfree hhost
  have hmax : 0 + bytes.length ≤ Hosted.maxInt := by
    rw [← hfree.bytes_eq, Outcome.bytes, Rope.length_toList, Nat.zero_add]
    exact hlength
  have houtcome (engine : Engine) (entry : EntryPoint) :
      (entry.outcome engine fmt (pieces.flatMap Piece.args ++ surplus) errno).Writes bytes := by
    unfold EntryPoint.outcome
    split
    · exact hfree
    · exact hhost 0 hmax
  refine ⟨bytes, fun c => ⟨Buffer.store c.buffer c.start c.capacity (.ofList bytes), ?_, ?_⟩⟩
  · simpa using Buffer.store_holdsCut c.start_add_capacity_le (.ofList bytes)
  · exact fun engine entry => call_of_writes (houtcome engine entry) c

/-- A format with a width that an argument gives, a percent sign, a number to two places and text
that is not ASCII, and one argument more than it takes. -/
theorem engines_agree_on_shared_pieces_mixed :
    ∃ text : Bytes, ∀ c : Site, ∃ new : Bytes,
      new.HoldsCut c.buffer c.start c.capacity text ∧
      ∀ (engine : Engine) (entry : EntryPoint),
        c.call engine entry (Utf8.encode "n=%-+*ld%%%08.2fé%s".toList)
            [.word 6, .word 42, .double 0xc00921f9f01b866e,
              .text (Utf8.encode "né".toList), .cell 0] 2 =
          .returned { value := text.length, errno := 2, buffer := new, cells := c.cells } :=
  engines_agree_on_shared_pieces
    [.literal (Utf8.encode "n=".toList),
      .directive { flags := ['-', '+'], width := .star 6, precision := none, length := .long } 'd'
        (.word 42),
      .percentSign,
      .directive
        { flags := ['0'], width := .digits ['8'], precision := some (.digits ['2']),
          length := .int } 'f'
        (.double 0xc00921f9f01b866e),
      .literal (Utf8.encode "é".toList),
      .directive .bare 's' (.text (Utf8.encode "né".toList))]
    [.cell 0] _ 2
    (by
      have htext : Written.bare.FitsText (Utf8.encode "né".toList).untilZero :=
        .whole ⟨"né".toList, by decide +kernel⟩ rfl rfl
      simp only [List.forall_mem_cons]
      exact ⟨⟨⟨_, rfl⟩, by decide +kernel⟩, ⟨by decide +kernel, .integer (by decide) rfl⟩, trivial,
        ⟨by decide +kernel, .fixed rfl rfl⟩, ⟨⟨_, rfl⟩, by decide +kernel⟩,
        ⟨Written.bare_plain, .text rfl htext fun _ => by decide +kernel⟩, List.forall_mem_nil _⟩)
    (by decide +kernel) (by decide +kernel) (by decide +kernel)

/-! Literal text of one letter, as long as it may be. -/

/-- A format of one letter, repeated. -/
def repeated (n : Nat) : Bytes := List.replicate n 97

theorem untilZero_repeated (n : Nat) : (repeated n).untilZero = repeated n := by
  simp [repeated, Bytes.untilZero]

theorem repeated_append (n m : Nat) : repeated n ++ repeated m = repeated (n + m) :=
  List.replicate_append_replicate

theorem percent_not_mem_repeated (n : Nat) : percent ∉ repeated n := fun hmem =>
  absurd (List.eq_of_mem_replicate hmem) (by decide)

theorem outcome_repeated (n : Nat) (errno : Int) :
    EntryPoint.outcome .engine .freestanding (repeated n) [] errno =
      (Freestanding.literal (repeated n)).andThen (.finish .done) := by
  simp only [EntryPoint.outcome, untilZero_repeated, Freestanding.format,
    Template.parse_of_not_mem (percent_not_mem_repeated n)]
  rfl

theorem valid_repeated (n : Nat) : Utf8.Valid (repeated n) := by
  have hletter : String.utf8EncodeChar 'a' = [97] := by decide
  exact ⟨List.replicate n 'a',
    by rw [Utf8.encode_replicate, hletter, List.flatten_replicate_singleton]; rfl⟩

theorem writes_repeated {n : Nat} (h : n ≤ Freestanding.maxAmount) (errno : Int) :
    (EntryPoint.outcome .engine .freestanding (repeated n) [] errno).Writes (repeated n) := by
  have hlength : (repeated n).length ≤ Freestanding.maxAmount := by simpa [repeated] using h
  obtain ⟨cs, hwrite, htext⟩ := literal_agrees (valid_repeated n) hlength
  rw [outcome_repeated, hwrite]
  refine ⟨rfl, rfl, ?_⟩
  simp [Freestanding.Attempt.andThen, ← htext]

theorem aborts_repeated {n : Nat} (h : Freestanding.maxAmount < n) (errno : Int) :
    (EntryPoint.outcome .engine .freestanding (repeated n) [] errno).ending = .aborted := by
  obtain ⟨cs, hcs⟩ := valid_repeated n
  have hdecode := Utf8.decode?_eq_some_iff.2 hcs
  have hlength : (repeated n).length = n := List.length_replicate
  have habort : Freestanding.literal (repeated n) = .abort := by
    simp only [Freestanding.literal, Freestanding.text, hdecode, Freestanding.Attempt.require,
      Option.getD_none, hlength]
    exact if_neg (by omega)
  rw [outcome_repeated, habort]
  rfl

theorem hosted_writes_repeated {n : Nat} (h : n ≤ Hosted.maxInt) (errno : Int) :
    (EntryPoint.outcome .engine .hosted (repeated n) [] errno).Writes (repeated n) := by
  have hmax : 0 + (Rope.ofList (repeated n)).length ≤ Hosted.maxInt := by
    simpa [← Rope.length_toList, repeated] using h
  have hend (written : Nat) : (Hosted.run errno [] .strict (.ofList []) written).Writes [] :=
    ⟨rfl, rfl, rfl⟩
  have hwrites := Hosted.proceed_writes (.ofList (repeated n)) hmax (hend _)
  rw [Rope.toList_ofList, List.append_nil] at hwrites
  simp only [EntryPoint.outcome, untilZero_repeated, Hosted.format,
    Template.parse_of_not_mem (percent_not_mem_repeated n)]
  exact hwrites

theorem exists_reply_repeated {engine : Engine} {n : Nat}
    (H : (EntryPoint.outcome .engine engine (repeated n) [] 0).Writes (repeated n)) (c : Site) :
    ∃ reply, c.call engine .engine (repeated n) [] 0 = .returned reply ∧ reply.value = n :=
  ⟨_, call_of_writes H c, by simp [repeated]⟩

/-- A literal text of more bytes than the freestanding engine takes, which stands between no two
percent signs. The host's engine writes it at every site, and the freestanding one aborts. -/
theorem engines_differ_on_long_text :
    (∀ p ∈ [Piece.literal (repeated 65536)], p.Shared) ∧
    (repeated 65536).untilZero = [Piece.literal (repeated 65536)].flatMap Piece.format ∧
    percent ∉ repeated 65536 ∧
    (∀ c : Site, ∃ reply, c.call .hosted .engine (repeated 65536) [] 0 = .returned reply ∧
      reply.value = 65536) ∧
    ¬ ∃ text : Bytes, ∀ c : Site, ∃ new : Bytes,
      new.HoldsCut c.buffer c.start c.capacity text ∧
      ∀ (engine : Engine) (entry : EntryPoint),
        c.call engine entry (repeated 65536) [] 0 =
          .returned { value := text.length, errno := 0, buffer := new, cells := c.cells } := by
  refine ⟨?_, ?_, percent_not_mem_repeated _, fun c => ?_, fun ⟨text, h⟩ => ?_⟩
  · rw [List.forall_mem_singleton]
    exact ⟨valid_repeated _, percent_not_mem_repeated _⟩
  · rw [untilZero_repeated, List.flatMap_singleton, Piece.format]
  · exact exists_reply_repeated (hosted_writes_repeated (by decide) 0) c
  · obtain ⟨new, -, hcalls⟩ := h (whole [] [])
    have hcall := hcalls .freestanding .engine
    rw [call_eq, Outcome.result, aborts_repeated (by decide)] at hcall
    cases hcall

end Site

end FormattedOutput
