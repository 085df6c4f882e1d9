import FormattedOutput.EntryPoint
import FormattedOutput.Proofs.Sink

/-! Bounded writes. A call of a formatter has a job (a format, arguments and the error number before
the call) and a site: where in which buffer the text goes, how much of it fits, and what the call
passes or meets besides. The job alone decides on an outcome (`EntryPoint.outcome`), and at every
site the caller sees that outcome, cut to the room there is (`Site.call_eq`). -/

namespace FormattedOutput

/-- A buffer that has a text in the `capacity` bytes from `start` on: as much of it as fits before a
zero byte, then that byte, and all else as it was in the old buffer. -/
structure Bytes.HoldsCut (new old : Bytes) (start capacity : Nat) (text : Bytes) : Prop where
  length_eq : new.length = old.length
  unwritten : capacity = 0 → new = old
  front : ∀ i < min text.length (capacity - 1), new[start + i]? = text[i]?
  zero : 0 < capacity → new[start + min text.length (capacity - 1)]? = some 0
  frame : ∀ i, i < start ∨ start + min text.length (capacity - 1) < i → new[i]? = old[i]?

theorem Buffer.store_holdsCut {buffer : Bytes} {start capacity : Nat}
    (h : start + capacity ≤ buffer.length) (text : Rope UInt8) :
    (Buffer.store buffer start capacity text).HoldsCut buffer start capacity text.toList := by
  -- without room not even the zero byte is written
  rcases Nat.eq_zero_or_pos capacity with rfl | hpos
  · refine ⟨rfl, fun _ => rfl, fun i hi => ?_, fun h0 => ?_, fun _ _ => rfl⟩
    · simp at hi
    · simp at h0
  have hstore : Buffer.store buffer start capacity text =
      buffer.overlay start (text.toList.take (capacity - 1) ++ [0]) := by
    simp [Buffer.store, Nat.pos_iff_ne_zero.1 hpos]
  have hkept :
      (text.toList.take (capacity - 1)).length = min text.toList.length (capacity - 1) := by
    rw [List.length_take, Nat.min_comm]
  have hroom : start + (text.toList.take (capacity - 1) ++ [0]).length ≤ buffer.length := by
    simp only [List.length_append, hkept, List.length_cons, List.length_nil]
    omega
  rw [hstore]
  refine ⟨Bytes.length_overlay hroom, fun h0 => ?_, fun i hi => ?_, fun _ => ?_, fun i hi => ?_⟩
  · omega
  all_goals
    rw [Bytes.getElem?_overlay hroom]
    simp only [List.length_append, hkept, List.length_cons, List.length_nil]
  · rw [if_pos (by omega), Nat.add_sub_cancel_left, List.getElem?_append_left (by omega),
      List.getElem?_take_of_lt (by omega)]
  · rw [if_pos (by omega), Nat.add_sub_cancel_left, List.getElem?_append_right (by omega), hkept]
    simp
  · rw [if_neg (by omega)]

namespace Request

variable {r : Request} {fmt : Bytes}

theorem hosted_call_eq (hfmt : r.format = some fmt) (h : r.lacking = false) (buffer : Bytes) :
    Hosted.call r buffer =
      let o := Hosted.format fmt.untilZero r.args r.errno
      o.result r (Buffer.store buffer (r.dest.getD 0) r.capacity o.text) := by
  simp [Hosted.call, hfmt, h]

theorem freestanding_call_eq (hfmt : r.format = some fmt) (h : r.lacking = false) (buffer : Bytes) :
    Freestanding.call r buffer =
      let o := Freestanding.format fmt.untilZero r.args
      o.result r (Sink.store buffer (r.dest.getD 0) r.capacity
        (o.text.chunks.map Chunk.toList)) := by
  simp [Freestanding.call, hfmt, h]

theorem checked_eq (h : r.lacking = false) (call : Request → Bytes → Result) (buffer : Bytes) :
    checked call r buffer = call r buffer := by
  simp [checked, h]

end Request

namespace Outcome

variable {o : Outcome}

theorem result_of_done (h : o.ending = .done) (r : Request) (buffer : Bytes) :
    o.result r buffer =
      .returned { value := o.text.length, errno := r.errno, buffer,
                  cells := o.stores.foldl Store.apply r.cells } := by
  simp [result, h]

/-- A failure returns -1, so that a result from 0 on is the length of a finished write. -/
theorem done_of_nonneg {r : Request} {buffer : Bytes} {reply : Reply}
    (h : o.result r buffer = .returned reply) (hvalue : 0 ≤ reply.value) :
    o.ending = .done ∧ reply.value = o.text.length := by
  unfold result at h
  cases hending : o.ending with
  | done =>
    simp only [hending, Result.returned.injEq] at h
    exact ⟨rfl, h ▸ rfl⟩
  | failed cause =>
    simp only [hending, Result.returned.injEq] at h
    rw [← h] at hvalue
    simp at hvalue
  | aborted | undefined => simp [hending] at h

end Outcome

/-- The functions through which a formatted write can be asked for. -/
inductive EntryPoint where
  /-- The write of the build's engine. -/
  | engine
  /-- The entry point that stands in for the one of the Universal C Runtime. -/
  | standIn
  deriving DecidableEq, Repr

/-- What a write comes to, by its job alone. -/
def EntryPoint.outcome (entry : EntryPoint) (engine : Engine) (fmt : Bytes) (args : List Argument)
    (errno : Int) : Outcome :=
  match entry, engine with
  | .engine, .freestanding => Freestanding.format fmt.untilZero args
  | _, _ => Hosted.format fmt.untilZero args errno

/-- What a call meets besides its job. An address that is null has no room behind it, and any other
has as much as the call claims. -/
structure Site where
  /-- Whether the build can log. -/
  logging : Bool
  level : LogLevel
  /-- What the caller passes to the stand-in's entry point besides. -/
  extras : Extras
  dest : Option Nat
  capacity : Nat
  cells : List Bytes
  buffer : Bytes
  room : match dest with
    | none => capacity = 0
    | some start => start + capacity ≤ buffer.length

namespace Site

/-- The arguments of a call. -/
def request (c : Site) (fmt : Bytes) (args : List Argument) (errno : Int) : Request where
  dest := c.dest
  capacity := c.capacity
  format := some fmt
  args := args
  errno := errno
  cells := c.cells

/-- The first byte of the room. -/
def start (c : Site) : Nat := c.dest.getD 0

/-- A site that has all of a buffer for room. -/
def whole (buffer : Bytes) (cells : List Bytes) : Site where
  logging := false
  level := .off
  extras := .standard
  dest := some 0
  capacity := buffer.length
  cells := cells
  buffer := buffer
  room := Nat.le_of_eq (Nat.zero_add _)

/-- A call through an entry point of a build with some engine. -/
def call (c : Site) (engine : Engine) (entry : EntryPoint) (fmt : Bytes) (args : List Argument)
    (errno : Int) : Result :=
  let b : Build := { engine, logging := c.logging }
  match entry with
  | .engine => (b.write c.level (c.request fmt args errno) c.buffer).1
  | .standIn => (b.standIn c.level c.extras (c.request fmt args errno) c.buffer).1

variable {engine : Engine} {entry : EntryPoint} {fmt : Bytes} {args : List Argument} {errno : Int}

theorem start_add_capacity_le (c : Site) : c.start + c.capacity ≤ c.buffer.length := by
  have h := c.room
  unfold start
  cases hdest : c.dest with
  | none => simp_all
  | some start => simpa [hdest] using h

theorem lacking_request (c : Site) (fmt : Bytes) (args : List Argument) (errno : Int) :
    (c.request fmt args errno).lacking = false := by
  have h := c.room
  simp only [Request.lacking, request]
  cases hd : c.dest <;> simp_all

theorem sinkStore_eq (c : Site) (text : Rope UInt8) :
    Sink.store c.buffer c.start c.capacity (text.chunks.map Chunk.toList) =
      Buffer.store c.buffer c.start c.capacity text :=
  Sink.store_eq c.start_add_capacity_le (by rw [Rope.toList, List.flatMap_def])

/-- At every site the caller sees the outcome of the job, cut to the room there is. -/
theorem call_eq (c : Site) :
    c.call engine entry fmt args errno =
      (entry.outcome engine fmt args errno).result (c.request fmt args errno)
        (Buffer.store c.buffer c.start c.capacity (entry.outcome engine fmt args errno).text) := by
  -- the request of a site lacks nothing, so it passes every check on the way to the formatter
  have hl := c.lacking_request fmt args errno
  have hhosted := Request.hosted_call_eq (r := c.request fmt args errno) rfl hl c.buffer
  have hchecked := (Request.checked_eq hl Hosted.call c.buffer).trans hhosted
  cases entry with
  | standIn => exact hchecked
  | engine =>
    cases engine with
    | hosted => exact hhosted
    | ucrt | standIn => exact hchecked
    | freestanding =>
      refine (Request.freestanding_call_eq (r := c.request fmt args errno) rfl hl c.buffer).trans ?_
      exact congrArg ((Freestanding.format fmt.untilZero args).result _) (c.sinkStore_eq _)

/-- **Bounded writes.** If a job succeeds at one site, then there is one text such that at every
site the call returns the length of that text, keeps the error number, stores the same counts, and
leaves the text in the buffer, cut to the room there is. -/
theorem call_cuts_one_text (engine : Engine) (entry : EntryPoint) (fmt : Bytes)
    (args : List Argument) (errno : Int)
    (h : ∃ (c : Site) (reply : Reply), c.call engine entry fmt args errno = .returned reply ∧
      0 ≤ reply.value ∧ reply.value ≤ Hosted.maxInt) :
    ∃ (text : Bytes) (stores : List Store), text.length ≤ Hosted.maxInt ∧
      ∀ c : Site, ∃ new : Bytes,
        c.call engine entry fmt args errno =
          .returned { value := text.length, errno, buffer := new,
                      cells := stores.foldl Store.apply c.cells } ∧
        new.HoldsCut c.buffer c.start c.capacity text := by
  obtain ⟨c, reply, hcall, hnonneg, hmax⟩ := h
  rw [call_eq] at hcall
  obtain ⟨hdone, hvalue⟩ := Outcome.done_of_nonneg hcall hnonneg
  let o := entry.outcome engine fmt args errno
  refine ⟨o.bytes, o.stores, ?_, fun c => ⟨Buffer.store c.buffer c.start c.capacity o.text, ?_, ?_⟩⟩
  · rw [hvalue] at hmax
    rw [Outcome.bytes, Rope.length_toList]
    exact_mod_cast hmax
  · rw [call_eq, Outcome.result_of_done hdone, Outcome.bytes, Rope.length_toList]
    rfl
  · exact Buffer.store_holdsCut c.start_add_capacity_le o.text

/-- Five digits of which two fit, written by the freestanding engine with three bytes of room. -/
theorem call_cuts_one_text_digits :
    ∃ (text : Bytes) (stores : List Store), text.length ≤ Hosted.maxInt ∧
      ∀ c : Site, ∃ new : Bytes,
        c.call .freestanding .engine ("%05d".toList.map Char.toUInt8) [.word 7] 2 =
          .returned { value := text.length, errno := 2, buffer := new,
                      cells := stores.foldl Store.apply c.cells } ∧
        new.HoldsCut c.buffer c.start c.capacity text :=
  call_cuts_one_text .freestanding .engine _ _ _
    ⟨{ logging := false, level := .off, extras := .standard, dest := some 1,
       capacity := 3, cells := [], buffer := List.replicate 6 0xa5, room := by decide },
      { value := 5, errno := 2, buffer := [0xa5, 48, 48, 0, 0xa5, 0xa5], cells := [] },
      by decide +kernel, by decide, by decide⟩

end Site

end FormattedOutput
