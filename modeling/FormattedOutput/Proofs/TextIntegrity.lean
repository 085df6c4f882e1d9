import FormattedOutput.Proofs.BoundedWrite
import FormattedOutput.Proofs.Utf8

/-! Text that stays text. All that the freestanding language writes is encoded from characters, so
that what it offers is UTF-8 wherever the write ends (`Freestanding.valid_run`). A buffer holds the
front part of that, which may end inside a character. -/

namespace FormattedOutput

theorem Bytes.HoldsCut.take_eq {new old text : Bytes} {start capacity : Nat}
    (h : new.HoldsCut old start capacity text) :
    (new.drop start).take (min text.length (capacity - 1)) = text.take (capacity - 1) := by
  refine List.ext_getElem? fun i => ?_
  by_cases hi : i < min text.length (capacity - 1)
  · rw [List.getElem?_take_of_lt hi, List.getElem?_drop, h.front i hi,
      List.getElem?_take_of_lt (by omega)]
  · rw [List.getElem?_eq_none (by rw [List.length_take]; omega),
      List.getElem?_eq_none (by rw [List.length_take]; omega)]

namespace Freestanding

theorem Attempt.valid_andThen {later : Outcome} (h : Utf8.Valid later.bytes) (a : Attempt) :
    Utf8.Valid (a.andThen later).bytes := by
  cases a with
  | write text =>
    rw [andThen, Outcome.bytes_offer, Utf8.toList_encodeRope]
    exact Utf8.Valid.append ⟨_, rfl⟩ h
  | refuse | abort => exact Utf8.valid_nil

theorem valid_run (parts : List (Item Spec)) (s : Supply) : Utf8.Valid (run parts s).bytes := by
  induction parts generalizing s with
  | nil => exact Utf8.valid_nil
  | cons part parts ih =>
    cases part with
    | literal text => exact Attempt.valid_andThen (ih s) _
    | unfinished => exact Utf8.valid_nil
    | directive spec letter =>
      rw [run]
      cases perform spec letter s with
      | none => exact Utf8.valid_nil
      | some performed => exact Attempt.valid_andThen (ih performed.2) performed.1

end Freestanding

theorem Outcome.buffer_of_returned {o : Outcome} {r : Request} {buffer : Bytes} {reply : Reply}
    (h : o.result r buffer = .returned reply) : reply.buffer = buffer := by
  unfold result at h
  cases hending : o.ending with
  | done | failed =>
    simp only [hending, Result.returned.injEq] at h
    rw [← h]
  | aborted | undefined => simp [hending] at h

namespace Site

/-- The bytes in front of the zero byte behind a text of some length. -/
def stored (c : Site) (reply : Reply) (length : Nat) : Bytes :=
  (reply.buffer.drop c.start).take (min length (c.capacity - 1))

/-- **Text integrity.** If a call of the freestanding engine returns, whether it succeeds or not,
then what it offers is UTF-8. The buffer holds the front part of that which fits: all of it, and
then that is UTF-8 itself, or UTF-8 and up to three bytes of a character that was cut. -/
theorem freestanding_call_keeps_text (c : Site) (fmt : Bytes) (args : List Argument) (errno : Int)
    (reply : Reply) (h : c.call .freestanding .engine fmt args errno = .returned reply) :
    let offered := (Freestanding.format fmt.untilZero args).bytes
    let stored := c.stored reply offered.length
    Utf8.Valid offered ∧ reply.buffer.HoldsCut c.buffer c.start c.capacity offered ∧
      stored <+: offered ∧ (offered.length ≤ c.capacity - 1 → Utf8.Valid stored) ∧
      ∃ front rear, stored = front ++ rear ∧ Utf8.Valid front ∧ rear.length ≤ 3 := by
  intro offered stored
  have hvalid : Utf8.Valid offered := Freestanding.valid_run _ _
  have hholds : reply.buffer.HoldsCut c.buffer c.start c.capacity offered := by
    rw [call_eq] at h
    rw [Outcome.buffer_of_returned h]
    exact Buffer.store_holdsCut c.start_add_capacity_le _
  have hstored : stored = offered.take (c.capacity - 1) := hholds.take_eq
  refine ⟨hvalid, hholds, ?_, fun hfits => ?_, ?_⟩
  · rw [hstored]
    exact List.take_prefix _ _
  · rwa [hstored, List.take_of_length_le hfits]
  · obtain ⟨cs, hcs⟩ := hvalid
    obtain ⟨front, rear, htake, hrear⟩ := Utf8.exists_take_encode cs (c.capacity - 1)
    exact ⟨Utf8.encode front, rear, by rw [hstored, hcs, htake], ⟨front, rfl⟩, hrear⟩

/-- A character of three bytes of which two fit. -/
theorem freestanding_call_keeps_text_cut :
    let fmt : Bytes := 0xe2 :: 0x82 :: 0xac :: "%c".toList.map Char.toUInt8
    let c := whole [0xa5, 0xa5, 0xa5] []
    let offered := (Freestanding.format fmt.untilZero [.word 0xe9]).bytes
    let stored := c.stored ⟨5, 0, [0xe2, 0x82, 0], []⟩ offered.length
    Utf8.Valid offered ∧ Bytes.HoldsCut [0xe2, 0x82, 0] c.buffer c.start c.capacity offered ∧
      stored <+: offered ∧ (offered.length ≤ c.capacity - 1 → Utf8.Valid stored) ∧
      ∃ front rear, stored = front ++ rear ∧ Utf8.Valid front ∧ rear.length ≤ 3 :=
  freestanding_call_keeps_text _ _ _ 0 ⟨5, 0, [0xe2, 0x82, 0], []⟩ (by decide +kernel)

end Site

end FormattedOutput
