import FormattedOutput.Proofs.CommonFragment
import FormattedOutput.Proofs.Framing

/-! Two writes one behind the other, and one write of both formats. The literal texts at the seam of
the formats become one part, and the other parts are carried out as before, so that the one write
offers what the two offer (`EntryPoint.writes_joined`). A buffer does not show either into how many
writes a text was cut (`Bytes.HoldsCut.append`). -/

namespace FormattedOutput

/-! ## Buffers -/

namespace Bytes.HoldsCut

variable {old middle new : Bytes} {start capacity : Nat} {front later text : Bytes}

theorem eq {new' : Bytes} (h : new.HoldsCut old start capacity text)
    (h' : new'.HoldsCut old start capacity text) : new = new' := by
  rcases Nat.eq_zero_or_pos capacity with hzero | hpos
  · rw [h.unwritten hzero, h'.unwritten hzero]
  refine List.ext_getElem? fun i => ?_
  by_cases hframe : i < start ∨ start + min text.length (capacity - 1) < i
  · rw [h.frame i hframe, h'.frame i hframe]
  obtain ⟨j, rfl⟩ : ∃ j, i = start + j := ⟨i - start, by omega⟩
  rcases Nat.lt_or_eq_of_le (show j ≤ min text.length (capacity - 1) by omega) with hfront | rfl
  · rw [h.front j hfront, h'.front j hfront]
  · rw [h.zero hpos, h'.zero hpos]

/-- A text behind another, in the room that the other leaves. -/
theorem append (hpos : 0 < capacity) (h : middle.HoldsCut old start capacity front)
    (h' : new.HoldsCut middle (start + min front.length (capacity - 1))
      (capacity - min front.length (capacity - 1)) later) :
    new.HoldsCut old start capacity (front ++ later) := by
  have hlength : min (front ++ later).length (capacity - 1) =
      min front.length (capacity - 1) +
        min later.length (capacity - min front.length (capacity - 1) - 1) := by
    rw [List.length_append]
    omega
  refine ⟨h'.length_eq.trans h.length_eq, fun hzero => ?_, fun i hi => ?_, fun _ => ?_,
    fun i hi => ?_⟩
  · omega
  · rw [hlength] at hi
    by_cases hfront : i < min front.length (capacity - 1)
    · rw [h'.frame _ (.inl (by omega)), h.front i hfront, List.getElem?_append_left (by omega)]
    · -- the first text fits, since there is room behind it
      have hfits : min front.length (capacity - 1) = front.length := by omega
      obtain ⟨j, rfl⟩ : ∃ j, i = front.length + j := ⟨i - front.length, by omega⟩
      rw [hfits] at h' hi
      rw [← Nat.add_assoc, h'.front j (by omega), List.getElem?_append_right (by omega),
        Nat.add_sub_cancel_left]
  · rw [hlength, ← Nat.add_assoc]
    exact h'.zero (by omega)
  · rw [hlength] at hi
    rw [h'.frame i (by omega), h.frame i (by omega)]

end Bytes.HoldsCut

/-! ## Runs -/

section Runs

variable {ι St : Type} {move : ι → St → Move St} {parts : List ι} {s s' : St} {text : Rope UInt8}
  {bytes : Bytes}

theorem Outcome.Writes.exists_passes (h : (runMoves move parts s).Writes bytes) :
    ∃ text s', text.toList = bytes ∧ Passes move parts s text [] s' := by
  obtain ⟨s', H⟩ := passes_of_done h.ending
  rw [h.stores] at H
  exact ⟨_, s', h.bytes_eq, H⟩

theorem Passes.writes (H : Passes move parts s text [] s') :
    (runMoves move parts s).Writes text.toList := by
  rw [H.runMoves_eq]
  exact ⟨rfl, rfl, rfl⟩

/-- Two stretches of parts, where the last part of the one and the first part of the other are
replaced by one part. The states of both are changed so that they fit together there. -/
theorem Passes.join {before later : List ι} {last first both : ι} {t t' : St} {text' : Rope UInt8}
    {f g : St → St} (H : Passes move (before ++ [last]) s text [] s')
    (H' : Passes move (first :: later) t text' [] t')
    (hbefore : ∀ mid u, Passes move before s u [] mid → Passes move before (f s) u [] (f mid))
    (hlater : ∀ mid u, Passes move later mid u [] t' → Passes move later (g mid) u [] (g t'))
    (hseam : ∀ mid u mid' u' w, move last mid = .on u [] s' → move first t = .on u' [] mid' →
      Passes move later mid' w [] t' →
      ∃ v, v.toList = u.toList ++ u'.toList ∧ move both (f mid) = .on v [] (g mid')) :
    ∃ joined, joined.toList = text.toList ++ text'.toList ∧
      Passes move (before ++ both :: later) (f s) joined [] (g t') := by
  obtain ⟨mid, frontText, frontStores, lastText, lastStores, Hbefore, Hlast, rfl, hstores⟩ :=
    H.exists_of_append
  obtain ⟨rfl, rfl⟩ := List.append_eq_nil_iff.1 hstores.symm
  obtain ⟨s', u, us, rest, rests, hlast, Hend, rfl, hstores⟩ := Hlast.exists_of_cons
  obtain ⟨rfl, rfl⟩ := List.append_eq_nil_iff.1 hstores.symm
  obtain ⟨mid', u', us', laterText, laterStores, hfirst, Hlater, rfl, hstores⟩ := H'.exists_of_cons
  obtain ⟨rfl, rfl⟩ := List.append_eq_nil_iff.1 hstores.symm
  cases Hend
  obtain ⟨v, hv, hboth⟩ := hseam mid u mid' u' laterText hlast hfirst Hlater
  refine ⟨_, ?_,
    (hbefore mid frontText Hbefore).append (.cons hboth (hlater mid' laterText Hlater))⟩
  simp [hv, Rope.append_nil]

end Runs

/-! ## The host's language -/

namespace Hosted

/-- Two formats of which one can stand behind the other: the arguments are taken in order,
and the conversions of the first are known with their lengths, so that the second is read
as strictly as by itself. -/
structure Joinable (fmt : Bytes) (args : List Argument) (fmt' : Bytes) : Prop where
  front : ∀ part ∈ Template.parse Spec.scan fmt, Ordinary part ∧ FitsLength part
  back : ∀ part ∈ Template.parse Spec.scan fmt', Ordinary part
  args_length : args.length = arity (Template.parse Spec.scan fmt)

/-- The literal texts at the seam, written as one text. -/
theorem move_seam {errno : Int} {last first : Bytes} {mid p q : Progress}
    {lastText firstText : Rope UInt8} {stores stores' : List Store} {args : List Argument}
    (hlast : move errno (.literal last) mid = .on lastText stores p)
    (hfirst : move errno (.literal first) (.start args) = .on firstText stores' q)
    (hstrict : p.manner = .strict) (hrest : p.supply.rest = [])
    (hmax : q.written + p.written ≤ maxInt) (all : List Argument) :
    ∃ text, text.toList = lastText.toList ++ firstText.toList ∧
      move errno (.literal (last ++ first)) (mid.extend all args 0) =
        .on text [] (q.extend all [] p.written) := by
  obtain ⟨-, rfl, rfl, rfl⟩ := Progress.offer_eq_on_iff.1 hlast
  obtain ⟨-, rfl, rfl, rfl⟩ := Progress.offer_eq_on_iff.1 hfirst
  simp only [Progress.start, Rope.length_ofList] at hstrict hrest hmax
  refine ⟨.ofList (last ++ first), by simp, Progress.offer_eq_on_iff.2 ⟨?_, rfl, rfl, ?_⟩⟩
  · simp only [Progress.extend, Rope.length_ofList, List.length_append]
    omega
  · simp only [Progress.extend, Progress.start, Supply.extend, Supply.ofList, Rope.length_ofList,
      List.length_append, hstrict, hrest, List.nil_append, List.append_nil,
      Progress.mk.injEq, true_and]
    omega

theorem writes_append {fmt fmt' : Bytes} {args args' : List Argument} {errno : Int}
    {bytes bytes' : Bytes} (H : Joinable fmt args fmt') (h : (format fmt args errno).Writes bytes)
    (h' : (format fmt' args' errno).Writes bytes') (hmax : bytes.length + bytes'.length ≤ maxInt) :
    (format (fmt ++ fmt') (args ++ args') errno).Writes (bytes ++ bytes') := by
  rw [format_eq] at h h' ⊢
  obtain ⟨text, p, rfl, Hp⟩ := h.exists_passes
  obtain ⟨text', q, rfl, Hq⟩ := h'.exists_passes
  have hp : p.written = text.length := by
    simpa [Progress.start] using (advances_of_passes Hp).written
  have hq : q.written = text'.length := by
    simpa [Progress.start] using (advances_of_passes Hq).written
  rw [Rope.length_toList, Rope.length_toList, ← hp, ← hq] at hmax
  have hordered := fun part hmem => ordered_of_ordinary part hmem (H.front part hmem).1
  have hordered' := fun part hmem => ordered_of_ordinary part hmem (H.back part hmem)
  obtain ⟨hstrict, hclosed⟩ := strict_of_passes H.front rfl Hp
  -- the first format leaves none of its arguments, so that the second finds its own
  have hrest : p.supply.rest = [] := by
    have hlength : args.length = p.supply.rest.length + _ := (passes_arity hordered Hp).2
    exact List.length_eq_zero_iff.1 (by have := H.args_length; omega)
  obtain ⟨before, last, first, later, hparse, hparse', happend⟩ :=
    Template.parse_append (scan_append_of_localRead Spec.localRead_scan) hclosed fmt'
  rw [hparse] at Hp hordered
  rw [hparse'] at Hq hordered'
  rw [happend]
  -- before the seam there are more arguments behind, and after it there is more text before
  obtain ⟨joined, hjoined, Hjoined⟩ := Hp.join Hq
    (f := Progress.extend (args ++ args') args' 0)
      (g := Progress.extend (args ++ args') [] p.written)
    (fun mid u Hmid =>
      passes_extend (fun part hmem => hordered part (List.mem_append_left _ hmem)) Hmid _ _
      ((advances_of_passes Hmid).counted (Nat.zero_le _)))
    (fun mid u Hmid =>
      passes_extend (fun part hmem => hordered' part (List.mem_cons_of_mem _ hmem)) Hmid _ _
      (by omega))
    (fun mid u mid' u' w hlast hfirst Hmid' => by
      have hwritten := (advances_of_passes Hmid').written
      exact move_seam hlast hfirst hstrict hrest (by omega) (args ++ args'))
  rw [← hjoined]
  exact Hjoined.writes

theorem writes_of_done {fmt : Bytes} {args : List Argument} {errno : Int}
    (hparts : ∀ part ∈ Template.parse Spec.scan fmt, Ordinary part)
    (h : (format fmt args errno).ending = .done) :
    (format fmt args errno).Writes (format fmt args errno).bytes := by
  refine ⟨h, ?_, rfl⟩
  rw [format_eq] at h ⊢
  obtain ⟨p, H⟩ := passes_of_done h
  exact (passes_arity (fun part hmem => ordered_of_ordinary part hmem (hparts part hmem)) H).1

/-- Two writes that are done, and the one write of both formats. -/
theorem writes_joined {fmt fmt' : Bytes} {args args' : List Argument} {errno : Int}
    (H : Joinable fmt args fmt') (h : (format fmt args errno).ending = .done)
    (h' : (format fmt' args' errno).ending = .done)
    (hmax : (format fmt args errno).bytes.length +
      (format fmt' args' errno).bytes.length ≤ maxInt) :
    ∃ bytes bytes', (format fmt args errno).Writes bytes ∧ (format fmt' args' errno).Writes bytes' ∧
      (format (fmt ++ fmt') (args ++ args') errno).Writes (bytes ++ bytes') := by
  have hwrites := writes_of_done (fun part hmem => (H.front part hmem).1) h
  have hwrites' := writes_of_done H.back h'
  exact ⟨_, _, hwrites, hwrites', writes_append H hwrites hwrites' hmax⟩

end Hosted

/-! ## The freestanding language -/

namespace Freestanding

/-- Two formats of which one can stand behind the other, with no stretch between percent
signs that is too long. -/
structure Joinable (fmt : Bytes) (args : List Argument) (fmt' : Bytes) : Prop where
  stretches : ∀ stretch ∈ (fmt ++ fmt').splitOn percent, stretch.length ≤ maxAmount
  args_length : args.length = arity (Template.parse Spec.scan fmt)

theorem length_le_of_mem {fmt text : Bytes} {most : Nat}
    (h : ∀ stretch ∈ fmt.splitOn percent, stretch.length ≤ most)
    (hmem : .literal text ∈ Template.parse Spec.scan fmt) : text.length ≤ most := by
  let P : Item Spec → Prop
    | .literal text => text.length ≤ most
    | .directive .. | .unfinished _ => True
  refine Template.forall_mem_parse (P := P) h
    (fun stretch hstretch spec letter text hscan => ⟨trivial, ?_⟩)
    (fun _ _ _ _ => ⟨trivial, trivial⟩) _ hmem
  have hsuffix := (Spec.localRead_scan hscan).suffix.length_le
  have hlength := h stretch hstretch
  simp only [List.length_cons] at hsuffix
  exact Nat.le_trans (by omega) hlength

/-- Literal text is written as it stands, if it is UTF-8 and not too long. -/
theorem literal_eq_write {bs : Bytes} {cs : Rope Char} (h : literal bs = .write cs) :
    Utf8.Valid bs ∧ (Utf8.encodeRope cs).toList = bs := by
  have hbounds : Utf8.Valid bs ∧ bs.length ≤ maxAmount := by
    unfold literal text at h
    split at h
    · cases h
    · next ds hdecode =>
      refine ⟨⟨ds, Utf8.decode?_eq_some_iff.1 hdecode⟩, ?_⟩
      simp only [Attempt.require, Option.getD_none] at h
      split at h
      · omega
      · cases h
  obtain ⟨cs', hwrite, htext⟩ := literal_agrees hbounds.1 hbounds.2
  rw [h, Attempt.write.injEq] at hwrite
  rw [Utf8.toList_encodeRope, hwrite, ← htext, Rope.toList_ofList]
  exact ⟨hbounds.1, rfl⟩

theorem move_seam {last first : Bytes} {mid s s' : Supply} {lastText firstText : Rope UInt8}
    {stores stores' : List Store} {args : List Argument}
    (hlast : move (.literal last) mid = .on lastText stores s)
    (hfirst : move (.literal first) (.ofList args) = .on firstText stores' s') (hrest : s.rest = [])
    (hlength : (last ++ first).length ≤ maxAmount) (all : List Argument) :
    ∃ text, text.toList = lastText.toList ++ firstText.toList ∧
      move (.literal (last ++ first)) (mid.extend all args) = .on text [] (s'.extend all []) := by
  obtain ⟨cs, hwrite, rfl, rfl, rfl⟩ := Attempt.move_eq_on hlast
  obtain ⟨cs', hwrite', rfl, rfl, rfl⟩ := Attempt.move_eq_on hfirst
  obtain ⟨hvalid, hbytes⟩ := literal_eq_write hwrite
  obtain ⟨hvalid', hbytes'⟩ := literal_eq_write hwrite'
  obtain ⟨both, hboth, htext⟩ := literal_agrees (hvalid.append hvalid') hlength
  refine ⟨Utf8.encodeRope both, ?_, ?_⟩
  · rw [Utf8.toList_encodeRope, ← htext, Rope.toList_ofList, hbytes, hbytes']
  · simp [move, hboth, Attempt.move, Supply.extend, Supply.ofList, hrest]

theorem writes_append {fmt fmt' : Bytes} {args args' : List Argument} {bytes bytes' : Bytes}
    (H : Joinable fmt args fmt') (h : (format fmt args).Writes bytes)
    (h' : (format fmt' args').Writes bytes') :
    (format (fmt ++ fmt') (args ++ args')).Writes (bytes ++ bytes') := by
  rw [format_eq] at h h' ⊢
  obtain ⟨text, s, rfl, Hs⟩ := h.exists_passes
  obtain ⟨text', t, rfl, Ht⟩ := h'.exists_passes
  have hordered : ∀ part ∈ Template.parse Spec.scan fmt, Ordered part := ordered_of_mem
  have hordered' : ∀ part ∈ Template.parse Spec.scan fmt', Ordered part := ordered_of_mem
  have hrest : s.rest = [] := by
    have hlength : args.length = s.rest.length + _ := (passes_arity hordered Hs).2
    exact List.length_eq_zero_iff.1 (by have := H.args_length; omega)
  obtain ⟨before, last, first, later, hparse, hparse', happend⟩ :=
    Template.parse_append (scan_append_of_localRead Spec.localRead_scan) (closed_of_passes Hs) fmt'
  have hlength : (last ++ first).length ≤ maxAmount :=
    length_le_of_mem H.stretches (by rw [happend]; simp)
  rw [hparse] at Hs hordered
  rw [hparse'] at Ht hordered'
  rw [happend]
  obtain ⟨joined, hjoined, Hjoined⟩ := Hs.join Ht
    (f := Supply.extend (args ++ args') args') (g := Supply.extend (args ++ args') [])
    (fun mid u Hmid =>
      passes_extend (fun part hmem => hordered part (List.mem_append_left _ hmem)) Hmid _ _)
    (fun mid u Hmid =>
      passes_extend (fun part hmem => hordered' part (List.mem_cons_of_mem _ hmem)) Hmid _ _)
    (fun mid u mid' u' w hlast hfirst _ => move_seam hlast hfirst hrest hlength (args ++ args'))
  rw [← hjoined]
  exact Hjoined.writes

theorem writes_of_done {fmt : Bytes} {args : List Argument} (h : (format fmt args).ending = .done) :
    (format fmt args).Writes (format fmt args).bytes := by
  refine ⟨h, ?_, rfl⟩
  rw [format_eq] at h ⊢
  obtain ⟨s, H⟩ := passes_of_done h
  exact (passes_arity ordered_of_mem H).1

end Freestanding

/-! ## Calls -/

theorem Bytes.untilZero_append (bs later : Bytes) :
    (bs.untilZero ++ later).untilZero = bs.untilZero ++ later.untilZero := by
  unfold untilZero
  rw [List.takeWhile_append_of_pos]
  intro b hb
  exact List.all_eq_true.1 List.all_takeWhile b hb

namespace EntryPoint

/-- Two formats of which one can stand behind the other, with the arguments of the first. -/
def Joinable (entry : EntryPoint) (engine : Engine) (fmt : Bytes) (args : List Argument)
    (fmt' : Bytes) : Prop :=
  match entry, engine with
  | .engine, .freestanding => Freestanding.Joinable fmt.untilZero args fmt'.untilZero
  | _, _ => Hosted.Joinable fmt.untilZero args fmt'.untilZero

variable {engine : Engine} {entry : EntryPoint} {fmt fmt' : Bytes} {args args' : List Argument}
  {errno : Int}

theorem writes_joined (H : entry.Joinable engine fmt args fmt')
    (h : (entry.outcome engine fmt args errno).ending = .done)
    (h' : (entry.outcome engine fmt' args' errno).ending = .done)
    (hmax : (entry.outcome engine fmt args errno).bytes.length +
      (entry.outcome engine fmt' args' errno).bytes.length ≤ Hosted.maxInt) :
    ∃ bytes bytes', (entry.outcome engine fmt args errno).Writes bytes ∧
      (entry.outcome engine fmt' args' errno).Writes bytes' ∧
      (entry.outcome engine (fmt.untilZero ++ fmt') (args ++ args') errno).Writes
        (bytes ++ bytes') := by
  have hzero := Bytes.untilZero_append fmt fmt'
  cases entry with
  | standIn =>
    simp only [outcome, hzero]
    exact Hosted.writes_joined H h h' hmax
  | engine =>
    cases engine with
    | hosted | ucrt | standIn =>
      simp only [outcome, hzero]
      exact Hosted.writes_joined H h h' hmax
    | freestanding =>
      simp only [outcome, hzero]
      have hwrites := Freestanding.writes_of_done h
      have hwrites' := Freestanding.writes_of_done h'
      exact ⟨_, _, hwrites, hwrites', Freestanding.writes_append H hwrites hwrites'⟩

end EntryPoint

namespace Site

/-- The rest of the room, behind `n` bytes of text or behind as many of them as fit. -/
def behind (c : Site) (n : Nat) (buffer : Bytes) (h : buffer.length = c.buffer.length) : Site where
  logging := c.logging
  level := c.level
  extras := c.extras
  dest := some (c.start + min n (c.capacity - 1))
  capacity := c.capacity - min n (c.capacity - 1)
  cells := c.cells
  buffer := buffer
  room := by
    have := c.start_add_capacity_le
    simp only
    omega

/-- Two calls of which the second writes behind the text of the first return `r` and `r'`, and the
one call with both formats and all arguments returns their sum and leaves the same buffer. -/
def Appends (c : Site) (engine : Engine) (entry : EntryPoint) (fmt : Bytes) (args : List Argument)
    (fmt' : Bytes) (args' : List Argument) (errno : Int) (r r' : Nat) : Prop :=
  ∃ (middle new : Bytes) (hmiddle : middle.length = c.buffer.length),
    c.call engine entry fmt args errno =
      .returned { value := r, errno, buffer := middle, cells := c.cells } ∧
    (c.behind r middle hmiddle).call engine entry fmt' args' errno =
      .returned { value := r', errno, buffer := new, cells := c.cells } ∧
    c.call engine entry (fmt.untilZero ++ fmt') (args ++ args') errno =
      .returned { value := r + r', errno, buffer := new, cells := c.cells }

variable {engine : Engine} {entry : EntryPoint} {fmt fmt' : Bytes} {args args' : List Argument}
  {errno : Int}

theorem done_of_returned {c : Site} {reply : Reply} {r : Nat}
    (h : c.call engine entry fmt args errno = .returned reply) (hvalue : reply.value = r) :
    (entry.outcome engine fmt args errno).ending = .done ∧
      (entry.outcome engine fmt args errno).bytes.length = r := by
  rw [call_eq] at h
  obtain ⟨hdone, hlength⟩ := Outcome.done_of_nonneg h (by omega)
  refine ⟨hdone, ?_⟩
  rw [Outcome.bytes, Rope.length_toList]
  omega

/-- **Appended writes.** If two jobs succeed and their formats can stand one behind the other, then
at every site with room the one write of both leaves what the two writes leave, of which the second
goes behind the text of the first. -/
theorem calls_append (engine : Engine) (entry : EntryPoint) (fmt : Bytes) (args : List Argument)
    (fmt' : Bytes) (args' : List Argument) (errno : Int) (r r' : Nat)
    (hjoin : entry.Joinable engine fmt args fmt')
    (h : ∃ (c : Site) (reply : Reply), c.call engine entry fmt args errno = .returned reply ∧
      reply.value = r)
    (h' : ∃ (c : Site) (reply : Reply), c.call engine entry fmt' args' errno = .returned reply ∧
      reply.value = r')
    (hmax : r + r' ≤ Hosted.maxInt) :
    ∀ c : Site, 0 < c.capacity → c.Appends engine entry fmt args fmt' args' errno r r' := by
  intro c hpos
  obtain ⟨_, _, hcall, hvalue⟩ := h
  obtain ⟨_, _, hcall', hvalue'⟩ := h'
  obtain ⟨hdone, rfl⟩ := done_of_returned hcall hvalue
  obtain ⟨hdone', rfl⟩ := done_of_returned hcall' hvalue'
  obtain ⟨bytes, bytes', H, H', Hjoined⟩ := EntryPoint.writes_joined hjoin hdone hdone' hmax
  rw [H.bytes_eq, H'.bytes_eq]
  have hcut := Buffer.store_holdsCut c.start_add_capacity_le (.ofList bytes)
  rw [Rope.toList_ofList] at hcut
  let d := c.behind bytes.length _ hcut.length_eq
  have hcut' := Buffer.store_holdsCut d.start_add_capacity_le (.ofList bytes')
  have hjoined := Buffer.store_holdsCut c.start_add_capacity_le (.ofList (bytes ++ bytes'))
  rw [Rope.toList_ofList] at hcut' hjoined
  have hbuffer := hjoined.eq (hcut.append hpos hcut')
  refine ⟨_, _, hcut.length_eq, c.call_of_writes H, d.call_of_writes H', ?_⟩
  rw [c.call_of_writes Hjoined, hbuffer, List.length_append, Int.natCast_add]

/-- A number with a literal text behind it, and a text in a field with a literal text before
it, of which a part fits. -/
theorem calls_append_number_and_text :
    (whole (List.replicate 12 0xa5) []).Appends .hosted .standIn
      ("%05d, ".toList.map Char.toUInt8) [.word 42]
      ("and %-4s%%".toList.map Char.toUInt8) [.text [97, 98]] 7 7 9 :=
  calls_append .hosted .standIn _ _ _ _ _ _ _
    ⟨by decide +kernel, by decide +kernel, by decide +kernel⟩
    ⟨whole (List.replicate 4 0xa5) [],
      { value := 7, errno := 7, buffer := [48, 48, 48, 0], cells := [] }, by decide +kernel, rfl⟩
    ⟨whole [] [], { value := 9, errno := 7, buffer := [], cells := [] }, by decide +kernel, rfl⟩
    (by decide) _ (by decide)

/-- Three kinds of writes that cannot be appended. A length that a conversion does not have makes
the host read what follows leniently, where `q` is no length. A literal text can become too long at
the seam, though it stands between no two percent signs. An argument that the first format leaves
is taken by the second. -/
theorem calls_append_fails :
    ((∀ part ∈ Template.parse Hosted.Spec.scan ("%hc".toList.map Char.toUInt8),
      Hosted.Ordinary part) ∧
      (∀ part ∈ Template.parse Hosted.Spec.scan ("%qd".toList.map Char.toUInt8),
        Hosted.Ordinary part) ∧
      (∃ (c : Site) (reply : Reply),
        c.call .hosted .engine ("%hc".toList.map Char.toUInt8) [.word 65] 0 =
        .returned reply ∧ reply.value = 1) ∧
      (∃ (c : Site) (reply : Reply), c.call .hosted .engine ("%qd".toList.map Char.toUInt8)
        [.word 4294967296] 0 = .returned reply ∧ reply.value = 10) ∧
      ¬ ∀ c : Site, 0 < c.capacity →
        c.Appends .hosted .engine ("%hc".toList.map Char.toUInt8) [.word 65]
        ("%qd".toList.map Char.toUInt8) [.word 4294967296] 0 1 10) ∧
    (percent ∉ repeated 65535 ∧ percent ∉ repeated 1 ∧
      (∃ (c : Site) (reply : Reply), c.call .freestanding .engine (repeated 65535) [] 0 =
        .returned reply ∧ reply.value = 65535) ∧
      (∃ (c : Site) (reply : Reply), c.call .freestanding .engine (repeated 1) [] 0 =
        .returned reply ∧ reply.value = 1) ∧
      ¬ ∀ c : Site, 0 < c.capacity →
        c.Appends .freestanding .engine (repeated 65535) [] (repeated 1) [] 0
        65535 1) ∧
    ((∃ (c : Site) (reply : Reply),
      c.call .hosted .engine ("x".toList.map Char.toUInt8) [.word 1] 0 =
        .returned reply ∧ reply.value = 1) ∧
      (∃ (c : Site) (reply : Reply),
        c.call .hosted .engine ("%d".toList.map Char.toUInt8) [.word 2] 0 =
        .returned reply ∧ reply.value = 1) ∧
      ¬ ∀ c : Site, 0 < c.capacity →
        c.Appends .hosted .engine ("x".toList.map Char.toUInt8) [.word 1]
        ("%d".toList.map Char.toUInt8) [.word 2] 0 1 1) := by
  have hwrites {n : Nat} (hn : n ≤ Freestanding.maxAmount) : ∃ (c : Site) (reply : Reply),
      c.call .freestanding .engine (repeated n) [] 0 = .returned reply ∧ reply.value = n :=
    ⟨whole [] [], exists_reply_repeated (writes_repeated hn 0) _⟩
  refine ⟨⟨by decide +kernel, by decide +kernel, ?_, ?_, fun h => ?_⟩,
    ⟨percent_not_mem_repeated _, percent_not_mem_repeated _, hwrites (by decide),
      hwrites (by decide), fun h => ?_⟩, ?_, ?_, fun h => ?_⟩
  · exact ⟨whole [] [],
      { value := 1, errno := 0, buffer := [], cells := [] }, by decide +kernel, rfl⟩
  · exact ⟨whole [] [],
      { value := 10, errno := 0, buffer := [], cells := [] }, by decide +kernel, rfl⟩
  · obtain ⟨_, new, _, -, -, hjoined⟩ := h (whole (List.replicate 3 0) []) (by decide)
    have hreply : (whole (List.replicate 3 0) []).call .hosted .engine
        (Bytes.untilZero ("%hc".toList.map Char.toUInt8) ++ "%qd".toList.map Char.toUInt8)
        ([.word 65] ++ [.word 4294967296]) 0 =
          .returned { value := 2, errno := 0, buffer := [65, 48, 0], cells := [] } := by
        decide +kernel
    have hvalue := hreply.symm.trans hjoined
    simp at hvalue
  · obtain ⟨_, new, _, -, -, hjoined⟩ := h (whole [0] []) (by decide)
    rw [untilZero_repeated, repeated_append, List.append_nil, call_eq, Outcome.result,
      aborts_repeated (by decide)] at hjoined
    cases hjoined
  · exact ⟨whole [] [],
      { value := 1, errno := 0, buffer := [], cells := [] }, by decide +kernel, rfl⟩
  · exact ⟨whole [] [],
      { value := 1, errno := 0, buffer := [], cells := [] }, by decide +kernel, rfl⟩
  · -- the second call writes a 2 behind the `x`, and the one call a 1
    obtain ⟨_, _, _, hfirst, hsecond, hjoined⟩ := h (whole (List.replicate 3 0) []) (by decide)
    have hreply : (whole (List.replicate 3 0) []).call .hosted .engine
        ("x".toList.map Char.toUInt8) [.word 1] 0 =
          .returned { value := 1, errno := 0, buffer := [120, 0, 0], cells := [] } := by
        decide +kernel
    have hreply' : (whole (List.replicate 3 0) []).call .hosted .engine
        (Bytes.untilZero ("x".toList.map Char.toUInt8) ++ "%d".toList.map Char.toUInt8)
        ([.word 1] ++ [.word 2]) 0 =
          .returned { value := 2, errno := 0, buffer := [120, 49, 0], cells := [] } := by
        decide +kernel
    cases hreply.symm.trans hfirst
    cases hreply'.symm.trans hjoined
    have hdigit : ((whole (List.replicate 3 0) []).behind 1 [120, 0, 0] rfl).call .hosted .engine
        ("%d".toList.map Char.toUInt8) [.word 2] 0 =
          .returned { value := 1, errno := 0, buffer := [120, 50, 0], cells := [] } := by
        decide +kernel
    cases hdigit.symm.trans hsecond

end Site

end FormattedOutput
