import FormattedOutput.Proofs.Append

/-! Jobs that print a text. `Prints` is what a caller sees, at every site, of a write that comes to
some characters. The freestanding language is followed directive by directive
(`Freestanding.writes_directive`), and the host's through a format of one directive
(`Hosted.format_writes`). Where a format consists of pieces that both languages share, every engine
prints what the freestanding one writes (`Piece.prints`). -/

namespace FormattedOutput

variable {engine : Engine} {entry : EntryPoint} {fmt : Bytes} {args : List Argument}
  {text : List Char}

/-- A job prints a text: at every site the call returns the number of its bytes, keeps the error
number, stores no count, and leaves the text in the buffer, cut to the room there is. -/
def Prints (engine : Engine) (entry : EntryPoint) (fmt : Bytes) (args : List Argument)
    (text : List Char) :
    Prop :=
  ∀ (c : Site) (errno : Int), ∃ new : Bytes,
    c.call engine entry fmt args errno =
      .returned { value := (Utf8.encode text).length, errno, buffer := new, cells := c.cells } ∧
    new.HoldsCut c.buffer c.start c.capacity (Utf8.encode text)

theorem prints_of_writes
    (H : ∀ errno, (entry.outcome engine fmt args errno).Writes (Utf8.encode text)) :
    Prints engine entry fmt args text := by
  intro c errno
  refine ⟨_, c.call_of_writes (H errno), ?_⟩
  have hcut := Buffer.store_holdsCut c.start_add_capacity_le (.ofList (Utf8.encode text))
  rwa [Rope.toList_ofList] at hcut

/-- Two jobs that print the same text look the same to every caller. -/
theorem Prints.call_eq {engine' : Engine} {entry' : EntryPoint} {fmt' : Bytes}
    {args' : List Argument}
    (H : Prints engine entry fmt args text) (H' : Prints engine' entry' fmt' args' text) (c : Site)
    (errno : Int) :
    c.call engine entry fmt args errno = c.call engine' entry' fmt' args' errno := by
  obtain ⟨new, hcall, hcut⟩ := H c errno
  obtain ⟨new', hcall', hcut'⟩ := H' c errno
  rw [hcall, hcall', hcut.eq hcut']

/-! ## The freestanding language -/

/-- A format of one directive. -/
def Written.format (d : Written) (letter : Char) : Bytes :=
  percent :: (bytesOf d.text ++ [letter.toUInt8])

namespace Freestanding

theorem writes_literal {bs bytes : Bytes} (hvalid : Utf8.Valid bs) (hlength : bs.length ≤ maxAmount)
    {items : List (Item Spec)} {s : Supply} (H : (run items s).Writes bytes) :
    (run (.literal bs :: items) s).Writes (bs ++ bytes) := by
  obtain ⟨cs, hliteral, hbytes⟩ := literal_agrees hvalid hlength
  rw [Rope.toList_ofList] at hbytes
  have hoffer := H.offer (Utf8.encodeRope cs)
  rw [Utf8.toList_encodeRope, ← hbytes] at hoffer
  rw [run, hliteral]
  exact hoffer

theorem writes_nil (s : Supply) : (run (Template.parse Spec.scan []) s).Writes [] :=
  writes_literal Utf8.valid_nil (Nat.zero_le _) ⟨rfl, rfl, rfl⟩

/-- Literal text, a directive that writes, and the rest of a format. -/
theorem writes_directive {d : Written} {letter : Char} {front rest bytes : Bytes} {s s' : Supply}
    {text : Rope Char} (hd : d.Readable) (hletter : letter ∈ sharedLetters)
    (hvalid : Utf8.Valid front) (hfront : percent ∉ front) (hlength : front.length ≤ maxAmount)
    (hperform : perform d.freestanding letter.toUInt8 s = some (.write text, s'))
    (hrest : (run (Template.parse Spec.scan rest) s').Writes bytes) :
    (run (Template.parse Spec.scan (front ++ (d.format letter ++ rest))) s).Writes
      (front ++ (Utf8.encode text.toList ++ bytes)) := by
  have hformat :
      d.format letter ++ rest = percent :: (bytesOf d.text ++ letter.toUInt8 :: rest) := by
    simp [Written.format]
  rw [hformat, Template.parse_append_percent hfront, Written.behind_freestanding hd hletter]
  refine writes_literal hvalid hlength ?_
  have hoffer := hrest.offer (Utf8.encodeRope text)
  rw [Utf8.toList_encodeRope] at hoffer
  rw [run, hperform]
  exact hoffer

/-- A format of one directive that writes. -/
theorem format_writes {d : Written} {letter : Char} {s' : Supply} {text : Rope Char}
    (hd : d.Readable) (hletter : letter ∈ sharedLetters) (hfmt : fmt.untilZero = d.format letter)
    (hperform : perform d.freestanding letter.toUInt8 (.ofList args) = some (.write text, s')) :
    (format fmt.untilZero args).Writes (Utf8.encode text.toList) := by
  have hwrites :=
    writes_directive hd hletter Utf8.valid_nil List.not_mem_nil (Nat.zero_le _) hperform
    (writes_nil s')
  rw [format, hfmt]
  simpa only [List.nil_append, List.append_nil] using hwrites

theorem prints_of_format_writes (H : (format fmt.untilZero args).Writes (Utf8.encode text)) :
    Prints .freestanding .engine fmt args text :=
  prints_of_writes fun _ => H

end Freestanding

/-! ## The host's language -/

namespace Hosted

/-- A format of one directive that writes. -/
theorem format_writes {d : Written} {letter : Char} {errno : Int} {s' : Supply} {text : Rope UInt8}
    (hd : d.WellFormed) (hletter : letter ∈ sharedLetters)
    (htakes : (Conversion.ofLetter letter.toUInt8).takes d.length = true)
    (hfmt : fmt.untilZero = d.format letter) (hmax : text.length ≤ maxInt)
    (hperform : perform .strict errno d.hosted (some letter.toUInt8) (.ofList args) =
      some (.write text, s')) :
    (format fmt.untilZero args errno).Writes text.toList := by
  have hparse : Template.parse Spec.scan (d.format letter) =
      [.literal [], .directive d.hosted letter.toUInt8, .literal []] := by
    have hcut : Template.parse Spec.scan (d.format letter) =
        .literal [] :: Template.behind Spec.scan (bytesOf d.text ++ [letter.toUInt8]) :=
      Template.parse_append_percent List.not_mem_nil _
    rw [hcut, Written.behind_hosted hd hletter [], Template.parse_of_not_mem List.not_mem_nil]
  have hmanner : d.hosted.manner (some letter.toUInt8) = .ok .strict := by
    simp [Spec.manner, Written.hosted, htakes]
  have hend (written : Nat) (hwritten : written ≤ maxInt) :
      (run errno [.literal []] .strict s' written).Writes [] :=
    proceed_writes (.ofList []) hwritten ⟨rfl, rfl, rfl⟩
  have hdirective (written : Nat) (hwritten : written + text.length ≤ maxInt) :
      (run errno [.directive d.hosted letter.toUInt8, .literal []] .strict (.ofList args)
        written).Writes
        text.toList := by
    have hwrites := proceed_writes text hwritten (hend _ hwritten)
    rw [List.append_nil] at hwrites
    simp only [run, step, Manner.next, hmanner, hperform, Effect.andThen]
    exact hwrites
  rw [format, hfmt, hparse]
  have hwrites := hdirective 0 (by omega)
  exact proceed_writes (.ofList []) (Nat.zero_le _) hwrites

end Hosted

/-! ## Every engine -/

/-- The write of a job is one in the freestanding language or one in the host's. -/
theorem EntryPoint.outcome_cases (entry : EntryPoint) (engine : Engine) (fmt : Bytes)
    (args : List Argument) :
    (∀ errno, entry.outcome engine fmt args errno = Freestanding.format fmt.untilZero args) ∨
      ∀ errno, entry.outcome engine fmt args errno = Hosted.format fmt.untilZero args errno := by
  cases entry with
  | standIn => exact .inr fun _ => rfl
  | engine =>
    cases engine with
    | freestanding => exact .inl fun _ => rfl
    | hosted | ucrt | standIn => exact .inr fun _ => rfl

/-- Where all pieces of a format are shared, every engine prints what the
freestanding one writes. -/
theorem Piece.prints {pieces : List Piece} {surplus : List Argument}
    (hpieces : ∀ p ∈ pieces, p.Shared) (hmost : LiteralsAtMost Freestanding.maxAmount pieces)
    (hfmt : fmt.untilZero = pieces.flatMap format)
    (hfree : (Freestanding.format fmt.untilZero (pieces.flatMap Piece.args ++ surplus)).Writes
      (Utf8.encode text))
    (hmax : (Utf8.encode text).length ≤ Hosted.maxInt) (engine : Engine) (entry : EntryPoint) :
    Prints engine entry fmt (pieces.flatMap Piece.args ++ surplus) text := by
  refine prints_of_writes fun errno => ?_
  obtain ⟨bytes, hbytes, hhost⟩ :=
    runsAlike errno (pieces.flatMap Piece.args ++ surplus) surplus hpieces hmost Utf8.valid_nil
      List.not_mem_nil hmost.leading_le
  rw [List.nil_append, ← hfmt] at hbytes hhost
  obtain rfl : Utf8.encode text = bytes := hfree.bytes_eq.symm.trans hbytes.bytes_eq
  fun_cases EntryPoint.outcome entry engine fmt (pieces.flatMap Piece.args ++ surplus) errno with
  | case1 => exact hfree
  | case2 => exact hhost 0 (by omega)

end FormattedOutput
