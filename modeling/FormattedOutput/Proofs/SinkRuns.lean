import FormattedOutput.Proofs.BoundedWrite

/-! Runs of a sink. Seen from outside a sink is a room and a count of the bytes filled, and an offer
is a copy into the part of the room behind them. `CountedRoom.write?` makes that copy and checks
every bound on the way. It agrees with the sink at each offer (`Sink.write?_counted`) and so along
every run, which never leaves its bounds, and what a run leaves depends on the text offered in all
(`Sink.writeAll_keeps`). -/

namespace FormattedOutput

namespace Bytes

/-- Behind the part of a text that fits, a room has what it has behind all of the text. -/
theorem drop_length_take (room text : Bytes) :
    room.drop (text.take room.length).length = room.drop text.length := by
  rw [List.length_take]
  rcases Nat.le_total room.length text.length with h | h
  · rw [Nat.min_eq_left h, List.drop_length, List.drop_eq_nil_of_le h]
  · rw [Nat.min_eq_right h]

theorem overlay_append (front rest new : Bytes) :
    (front ++ rest).overlay front.length new = front ++ new ++ rest.drop new.length := by
  rw [overlay, List.take_left, List.drop_append, Nat.add_sub_cancel_left,
    List.drop_eq_nil_of_le (Nat.le_add_right ..), List.nil_append]

end Bytes

/-- A room, and the number of bytes that are filled from its start on. -/
structure CountedRoom where
  room : Bytes
  filled : Nat
  deriving DecidableEq, Repr

namespace CountedRoom

/-- A difference of two counts, if it is not below zero. -/
def minus? (m n : Nat) : Option Nat := if n ≤ m then some (m - n) else none

/-- What stands from an offset on, if the offset is not behind the end. -/
def behind? (bs : Bytes) (start : Nat) : Option Bytes :=
  if start ≤ bs.length then some (bs.drop start) else none

/-- The first bytes, if there are as many. -/
def first? (bs : Bytes) (n : Nat) : Option Bytes := if n ≤ bs.length then some (bs.take n) else none

/-- The bytes `old` at an offset, replaced by as many others. -/
def copy? (bs : Bytes) (start : Nat) (old new : Bytes) : Option Bytes :=
  if new.length = old.length then some (bs.overlay start new) else none

/-- A room after a text was offered to it: as many bytes as are free are copied behind those that
are filled. There is none if a difference, a part or a copy is out of bounds. -/
def write? (r : CountedRoom) (text : Bytes) : Option CountedRoom := do
  let free ← minus? r.room.length r.filled
  let n := min text.length free
  let target ← first? (← behind? r.room r.filled) n
  let source ← first? text n
  let room ← copy? r.room r.filled target source
  return { room, filled := r.filled + n }

/-- A room after some texts were offered to it in order, if every bound was kept. -/
def writeAll? (r : CountedRoom) (texts : List Bytes) : Option CountedRoom := texts.foldlM write? r

/-- While no more is filled than there is room, every bound is kept. -/
theorem write?_eq {r : CountedRoom} (h : r.filled ≤ r.room.length) (text : Bytes) :
    r.write? text = some
      { room := r.room.overlay r.filled (text.take (r.room.length - r.filled))
        filled := r.filled + min text.length (r.room.length - r.filled) } := by
  have hbehind : (r.room.drop r.filled).length = r.room.length - r.filled := List.length_drop
  have hsource : text.take (min text.length (r.room.length - r.filled)) =
      text.take (r.room.length - r.filled) := by
    rw [Nat.min_comm, ← List.take_take, List.take_length]
  have htarget : (text.take (r.room.length - r.filled)).length =
      ((r.room.drop r.filled).take (min text.length (r.room.length - r.filled))).length := by
    rw [List.length_take, List.length_take, hbehind]
    omega
  simp only [write?, minus?, behind?, first?, copy?, if_pos h, Option.bind_eq_bind,
    Option.bind_some, hbehind, if_pos (Nat.min_le_left ..), if_pos (Nat.min_le_right ..), hsource,
    if_pos htarget]
  rfl

end CountedRoom

namespace Sink

/-- A sink as it is seen from outside. -/
def counted (s : Sink) : CountedRoom := { room := s.contents, filled := s.filled }

theorem filled_counted_le (s : Sink) : s.counted.filled ≤ s.counted.room.length := by
  simp [counted, filled, contents]

theorem contents_write (s : Sink) (text : Bytes) :
    (s.write text).contents =
      s.taken.reverse ++ text.take s.free.length ++ s.free.drop text.length := by
  simp [write_eq, contents]

theorem filled_write (s : Sink) (text : Bytes) :
    (s.write text).filled = s.filled + min text.length s.free.length := by
  simp only [write_eq, filled, List.length_append, List.length_reverse, List.length_take]
  omega

/-- An offer to a sink is a copy that keeps all bounds. -/
theorem write?_counted (s : Sink) (text : Bytes) :
    s.counted.write? text = some (s.write text).counted := by
  have hfree : s.contents.length - s.filled = s.free.length := by simp [contents, filled]
  have hroom : s.contents.overlay s.filled (text.take s.free.length) = (s.write text).contents := by
    rw [contents_write, ← Bytes.drop_length_take, ← Bytes.overlay_append, List.length_reverse]
    rfl
  have hwrite : s.counted.write? text = some
      { room := s.contents.overlay s.filled (text.take (s.contents.length - s.filled))
        filled := s.filled + min text.length (s.contents.length - s.filled) } :=
    CountedRoom.write?_eq s.filled_counted_le text
  rw [hfree, hroom, ← filled_write] at hwrite
  exact hwrite

/-- So is every offer of a run. -/
theorem writeAll?_counted (s : Sink) (texts : List Bytes) :
    s.counted.writeAll? texts = some (s.writeAll texts).counted := by
  induction texts generalizing s with
  | nil => rfl
  | cons text texts ih =>
    rw [CountedRoom.writeAll?, List.foldlM_cons, write?_counted]
    exact ih (s.write text)

/-! ## What a run leaves -/

/-- A sink has kept as much of a text as its room can hold, and left the
rest of the room as it was. -/
structure Keeps (s : Sink) (room offered : Bytes) : Prop where
  length_eq : s.contents.length = room.length
  filled_le : s.filled ≤ room.length
  filled_eq : s.filled = min room.length offered.length
  front : s.contents.take s.filled = offered.take s.filled
  rest : s.contents.drop s.filled = room.drop s.filled

theorem writeAll_keeps (room : Bytes) (texts : List Bytes) :
    ((ofRoom room).writeAll texts).Keeps room texts.flatten := by
  have hfilled :
      ((ofRoom room).writeAll texts).filled = (texts.flatten.take room.length).length := by
    rw [writeAll_eq, filled_ofRoom_write]
  have hcontents : ((ofRoom room).writeAll texts).contents =
      texts.flatten.take room.length ++ room.drop (texts.flatten.take room.length).length := by
    rw [writeAll_eq, contents_ofRoom_write, Bytes.drop_length_take]
  have hlength : (texts.flatten.take room.length).length = min room.length texts.flatten.length :=
    List.length_take
  refine ⟨?_, ?_, hfilled.trans hlength, ?_, ?_⟩
  · rw [hcontents, List.length_append, List.length_drop, hlength]
    omega
  · rw [hfilled, hlength]
    exact Nat.min_le_left ..
  · rw [hcontents, hfilled, List.take_left, hlength, ← List.take_take, List.take_length]
  · rw [hcontents, hfilled, List.drop_left]

/-- Nothing changes in a sink whose room is full. -/
theorem writeAll_of_full {s : Sink} (h : s.filled = s.contents.length) (texts : List Bytes) :
    s.writeAll texts = s := by
  obtain ⟨taken, free⟩ := s
  have hfree : free = [] := by simpa [filled, contents] using h
  rw [writeAll_eq, write_eq, hfree]
  simp

/-- A sink in a part of a buffer leaves a place for the zero byte behind what it has kept. -/
theorem store_holdsCut {buffer : Bytes} {start capacity : Nat}
    (h : start + capacity ≤ buffer.length) (texts : List Bytes) :
    (Sink.store buffer start capacity texts).HoldsCut buffer start capacity texts.flatten := by
  have hcut := Buffer.store_holdsCut h (.ofList texts.flatten)
  rw [← store_eq h (Rope.toList_ofList _).symm, Rope.toList_ofList] at hcut
  exact hcut

/-- **The sink keeps what fits.** Whatever is offered to a sink, no bound is left at any offer, and
after it the sink has kept as much of all the text offered as the room holds, and has left the rest
of the room as it was. So texts that are the same in all leave the same sink, and a full sink stays
as it is. In a part of a buffer that has one byte more than the room, the byte behind what was kept
is the zero byte, and all behind it are as before. -/
theorem sink_keeps_front (room : Bytes) (texts : List Bytes) :
    (CountedRoom.mk room 0).writeAll? texts = some ((ofRoom room).writeAll texts).counted ∧
    ((ofRoom room).writeAll texts).Keeps room texts.flatten ∧
    (∀ texts' : List Bytes, texts'.flatten = texts.flatten →
      (ofRoom room).writeAll texts' = (ofRoom room).writeAll texts) ∧
    (((ofRoom room).writeAll texts).filled = room.length → ∀ later : List Bytes,
      (ofRoom room).writeAll (texts ++ later) = (ofRoom room).writeAll texts) ∧
    (∀ (buffer : Bytes) (start capacity : Nat), 0 < capacity → start + capacity ≤ buffer.length →
      room = (buffer.drop start).take (capacity - 1) →
      ((ofRoom room).writeAll texts).filled < capacity ∧
      (Sink.store buffer start capacity texts)[start + ((ofRoom room).writeAll texts).filled]? =
        some 0 ∧
      (Sink.store buffer start capacity texts).HoldsCut buffer start capacity texts.flatten) := by
  have hkeeps := writeAll_keeps room texts
  refine ⟨writeAll?_counted (ofRoom room) texts, hkeeps, fun texts' htexts => ?_,
    fun hfull later => ?_, fun buffer start capacity hpos hroom hpart => ?_⟩
  · rw [writeAll_eq, writeAll_eq, htexts]
  · have hlength := hkeeps.length_eq
    rw [writeAll, List.foldl_append]
    exact writeAll_of_full (hfull.trans hlength.symm) later
  · have hlength : room.length = capacity - 1 := by
      rw [hpart, List.length_take, List.length_drop]
      omega
    have hfilled :
        ((ofRoom room).writeAll texts).filled = min texts.flatten.length (capacity - 1) := by
      rw [hkeeps.filled_eq, hlength, Nat.min_comm]
    have hcut := store_holdsCut hroom texts
    refine ⟨by omega, ?_, hcut⟩
    rw [hfilled]
    exact hcut.zero hpos

/-- Three texts for a room of three bytes, one of them empty and the last one a character of two
bytes, of which one fits. -/
theorem sink_keeps_front_of_character :
    (CountedRoom.mk [0xa5, 0xa5, 0xa5] 0).writeAll? [[97, 98], [], [0xc3, 0xa9]] =
      some ⟨[97, 98, 0xc3], 3⟩ ∧
    ((ofRoom [0xa5, 0xa5, 0xa5]).writeAll [[97, 98], [], [0xc3, 0xa9]]).Keeps [0xa5, 0xa5, 0xa5]
      [97, 98, 0xc3, 0xa9] ∧
    (ofRoom [0xa5, 0xa5, 0xa5]).writeAll [[97], [98, 0xc3, 0xa9]] =
      (ofRoom [0xa5, 0xa5, 0xa5]).writeAll [[97, 98], [], [0xc3, 0xa9]] ∧
    (ofRoom [0xa5, 0xa5, 0xa5]).writeAll [[97, 98], [], [0xc3, 0xa9], [100]] =
      (ofRoom [0xa5, 0xa5, 0xa5]).writeAll [[97, 98], [], [0xc3, 0xa9]] ∧
    (Sink.store [1, 0xa5, 0xa5, 0xa5, 7, 8] 1 4 [[97, 98], [], [0xc3, 0xa9]])[1 + 3]? = some 0 := by
  obtain ⟨hrun, hkeeps, hsame, hfull, hstore⟩ :=
    sink_keeps_front [0xa5, 0xa5, 0xa5] [[97, 98], [], [0xc3, 0xa9]]
  have hzero := (hstore [1, 0xa5, 0xa5, 0xa5, 7, 8] 1 4 (by decide) (by decide) (by decide)).2.1
  exact ⟨hrun, hkeeps, hsame [[97], [98, 0xc3, 0xa9]] (by decide), hfull (by decide) [[100]], hzero⟩

end Sink

end FormattedOutput
