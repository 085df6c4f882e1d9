import FormattedOutput.Buffer
import FormattedOutput.Sink

/-! What a bounded write leaves in a buffer. `Bytes.getElem?_overlay` reads a buffer byte by byte,
and `Sink.store_eq` shows that a sink, however the text is cut into pieces, leaves what storing the
whole text at once leaves. -/

namespace FormattedOutput

namespace Bytes

variable {bs new : Bytes} {start : Nat}

theorem getElem?_overlay (h : start + new.length ≤ bs.length) (i : Nat) :
    (bs.overlay start new)[i]? =
      if start ≤ i ∧ i < start + new.length then new[i - start]? else bs[i]? := by
  have hstart : (bs.take start).length = start := by simp; omega
  rw [overlay, List.append_assoc]
  by_cases hi : i < start
  · rw [List.getElem?_append_left (by omega), List.getElem?_take_of_lt hi, if_neg (by omega)]
  rw [List.getElem?_append_right (by omega), hstart]
  by_cases hi' : i < start + new.length
  · rw [List.getElem?_append_left (by omega), if_pos (by omega)]
  · rw [List.getElem?_append_right (by omega), List.getElem?_drop, if_neg (by omega)]
    congr 1
    omega

end Bytes

namespace Sink

theorem write_eq (s : Sink) (text : Bytes) :
    s.write text = ⟨(text.take s.free.length).reverse ++ s.taken, s.free.drop text.length⟩ := by
  induction text generalizing s with
  | nil => simp [write]
  | cons b text ih =>
    obtain ⟨taken, free⟩ := s
    cases free with
    | nil => simp [write]
    | cons f free => simp [write, ih]

/-- Offering two texts one after the other is offering them as one. -/
theorem write_append (s : Sink) (text later : Bytes) :
    s.write (text ++ later) = (s.write text).write later := by
  simp only [write_eq, List.length_append, List.length_drop, List.drop_drop, List.take_append,
    List.reverse_append, List.append_assoc]

theorem writeAll_eq (s : Sink) (texts : List Bytes) : s.writeAll texts = s.write texts.flatten := by
  induction texts generalizing s with
  | nil => rfl
  | cons text texts ih =>
    calc s.writeAll (text :: texts) = (s.write text).writeAll texts := rfl
      _ = (s.write text).write texts.flatten := ih _
      _ = s.write (text :: texts).flatten := by rw [← write_append, List.flatten_cons]

theorem contents_ofRoom_write (room text : Bytes) :
    ((ofRoom room).write text).contents = text.take room.length ++ room.drop text.length := by
  simp [write_eq, contents, ofRoom]

theorem filled_ofRoom_write (room text : Bytes) :
    ((ofRoom room).write text).filled = (text.take room.length).length := by
  simp [write_eq, filled, ofRoom]

/-- A sink leaves the buffer that storing the whole text leaves, whatever its pieces are. -/
theorem store_eq {buffer : Bytes} {start capacity : Nat} (h : start + capacity ≤ buffer.length)
    {texts : List Bytes} {text : Rope UInt8} (htext : texts.flatten = text.toList) :
    Sink.store buffer start capacity texts = Buffer.store buffer start capacity text := by
  rcases Nat.eq_zero_or_pos capacity with rfl | hpos
  · rfl
  have hroom : ((buffer.drop start).take (capacity - 1)).length = capacity - 1 := by simp; omega
  simp only [Sink.store, Buffer.store, if_neg (Nat.pos_iff_ne_zero.1 hpos), writeAll_eq, htext,
    Rope.take_eq, contents_ofRoom_write, filled_ofRoom_write, hroom]
  -- both sides have the text, a zero byte, and the old bytes behind it
  refine List.ext_getElem? fun i => ?_
  rw [Bytes.getElem?_overlay, Bytes.getElem?_overlay, Bytes.getElem?_overlay]
  · simp only [List.length_append, List.length_take, List.length_drop, List.length_cons,
      List.length_nil, List.getElem?_append, List.getElem?_take, List.getElem?_drop]
    grind
  · simp; omega
  · simp; omega
  · rw [Bytes.length_overlay] <;> simp <;> omega

end Sink

end FormattedOutput
