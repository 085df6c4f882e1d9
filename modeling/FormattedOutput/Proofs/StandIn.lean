import FormattedOutput.EntryPoint
import FormattedOutput.Proofs.Digits

/-! The entry point that stands in for the one of the Universal C Runtime. A call that lacks what it
needs is rejected and leaves everything as it was. Any other is a call of the host's formatter,
whatever the option word and the locale are. The log shows the option bits that were ignored:
`LogRecord.number?` reads them back, so that a record belongs to one word up to the bit that is
known (`Build.Logs.logged_eq_logged_iff`). -/

namespace FormattedOutput

/-! ## Hexadecimal numbers in a text -/

/-- The text behind the first marker of hexadecimal digits. -/
def behindMarker? : List Char → Option (List Char)
  | [] => none
  | '0' :: 'x' :: cs => some cs
  | _ :: cs => behindMarker? cs

theorem behindMarker?_append {front : List Char} (h : '0' ∉ front) (cs : List Char) :
    behindMarker? (front ++ '0' :: 'x' :: cs) = some cs := by
  induction front with
  | nil => rfl
  | cons c front ih =>
    simp only [List.mem_cons, not_or] at h
    rw [List.cons_append, behindMarker?, ih h.2]
    rintro cs' rfl
    exact absurd rfl h.1

/-- The hexadecimal number in the message of a record. -/
def LogRecord.number? (record : LogRecord) : Option Nat :=
  (behindMarker? record.message.toList).bind (numberOf? hexDigits)

theorem number?_ignoredRecord (bits : UInt64) : (ignoredRecord bits).number? = some bits.toNat := by
  have hmessage : (ignoredRecord bits).message.toList =
      "ignoring `__stdio_common_vsprintf` options ".toList ++ '0' :: 'x' ::
        Nat.toDigits 16 bits.toNat := by
    simp [ignoredRecord]
  rw [LogRecord.number?, hmessage, behindMarker?_append (by decide)]
  have hnumber := spells_hexadecimal.numberOf?_map bits.toNat
  rwa [List.map_id] at hnumber

/-! ## Option bits -/

/-- The option bits that the stand-in ignores. -/
def Extras.ignored (x : Extras) : UInt64 := x.options &&& ~~~standardBehavior

namespace Extras

variable {x y : Extras}

theorem testBit_ignored (x : Extras) (i : Nat) :
    x.ignored.toNat.testBit i = (x.options.toNat.testBit i && decide (i ≠ 1)) := by
  have hknown : (standardBehavior.toBitVec).getLsbD i = decide (i = 1) := by
    by_cases hi : i < 64
    · have hall : ∀ i < 64, (standardBehavior.toBitVec).getLsbD i = decide (i = 1) := by decide
      exact hall i hi
    · rw [BitVec.getLsbD_of_ge _ _ (Nat.le_of_not_lt hi)]
      simp; omega
  simp only [ignored, ← UInt64.toNat_toBitVec, BitVec.testBit_toNat, UInt64.toBitVec_and,
    UInt64.toBitVec_not, BitVec.getLsbD_and, BitVec.getLsbD_not, hknown]
  by_cases hi : i < 64
  · simp [hi]
  · simp [BitVec.getLsbD_of_ge _ _ (Nat.le_of_not_lt hi)]

theorem ignored_eq_iff :
    x.ignored = y.ignored ↔ ∀ i ≠ 1, x.options.toNat.testBit i = y.options.toNat.testBit i := by
  rw [← UInt64.toNat_inj]
  constructor
  · intro h i hi
    have hbit := congrArg (Nat.testBit · i) h
    simpa [testBit_ignored, hi] using hbit
  · intro h
    refine Nat.eq_of_testBit_eq fun i => ?_
    rw [testBit_ignored, testBit_ignored]
    by_cases hi : i = 1
    · simp [hi]
    · rw [h i hi]

theorem ignored_ne_zero_iff : x.ignored ≠ 0 ↔ ∃ i ≠ 1, x.options.toNat.testBit i = true := by
  have hzero := ignored_eq_iff (x := x) (y := { x with options := 0 })
  simp only [ignored, UInt64.zero_and, UInt64.toNat_zero, Nat.zero_testBit] at hzero
  rw [ne_eq, ignored, hzero]
  simp

end Extras

/-- A record shows an option word, except for the bit that is known. -/
structure LogRecord.Shows (record : LogRecord) (options : UInt64) : Prop where
  level : record.level = .debug
  target : record.target = "snprintf_shim::ucrt"
  number : ∃ n, record.number? = some n ∧
    ∀ i, n.testBit i = (options.toNat.testBit i && decide (i ≠ 1))

theorem ignoredRecord_shows (x : Extras) : (ignoredRecord x.ignored).Shows x.options :=
  ⟨rfl, rfl, _, number?_ignoredRecord x.ignored, x.testBit_ignored⟩

theorem Request.lacking_iff {r : Request} :
    r.lacking = true ↔ r.format = none ∨ r.dest = none ∧ r.capacity ≠ 0 := by
  simp [lacking]

namespace Build

variable {b : Build} {level : LogLevel} {x y : Extras} {r : Request} {buffer : Bytes}

/-- A log that takes the records of the stand-in. -/
structure Logs (b : Build) (level : LogLevel) : Prop where
  logging : b.logging = true
  level : level = .debug ∨ level = .trace

theorem Logs.logged_eq (h : b.Logs level) (x : Extras) :
    b.logged level x = if x.ignored = 0 then [] else [ignoredRecord x.ignored] := by
  have hlevel : LogLevel.debug.rank ≤ level.rank := by
    rcases h.level with rfl | rfl <;> decide
  unfold logged
  by_cases hzero : x.ignored = 0
  · rw [if_pos hzero, if_neg fun hlogged => hlogged.2.1 hzero]
  · rw [if_neg hzero, if_pos ⟨h.logging, hzero, hlevel⟩]
    rfl

theorem logged_of_not_logs (h : ¬ b.Logs level) (x : Extras) : b.logged level x = [] := by
  refine if_neg fun ⟨hlogging, _, hlevel⟩ => h ⟨hlogging, ?_⟩
  cases level with
  | debug => exact .inl rfl
  | trace => exact .inr rfl
  | off | error | warn | info => exact absurd hlevel (by decide)

/-- Two option words leave the same log if they differ in no other bit
than the one that is known. -/
theorem Logs.logged_eq_logged_iff (h : b.Logs level) :
    b.logged level x = b.logged level y ↔
      ∀ i ≠ 1, x.options.toNat.testBit i = y.options.toNat.testBit i := by
  rw [← Extras.ignored_eq_iff, h.logged_eq, h.logged_eq]
  refine ⟨fun hlog => ?_, fun hbits => by rw [hbits]⟩
  by_cases hx : x.ignored = 0 <;> by_cases hy : y.ignored = 0
  · rw [hx, hy]
  · simp [hx, hy] at hlog
  · simp [hx, hy] at hlog
  · rw [if_neg hx, if_neg hy, List.singleton_inj] at hlog
    have hnumber := congrArg LogRecord.number? hlog
    rw [number?_ignoredRecord, number?_ignoredRecord, Option.some.injEq] at hnumber
    exact UInt64.toNat_inj.1 hnumber

theorem standIn_of_lacking (h : r.lacking = true) (b : Build) (level : LogLevel) (x : Extras)
    (buffer : Bytes) :
    b.standIn level x r buffer =
      (.returned { value := -1, errno := 22, buffer, cells := r.cells }, []) := by
  simp [standIn, checked, h, Errno.invalid]

theorem standIn_of_not_lacking (h : r.lacking = false) (b : Build) (level : LogLevel) (x : Extras)
    (buffer : Bytes) : b.standIn level x r buffer = (Hosted.call r buffer, b.logged level x) := by
  simp [standIn, checked, h]

/-- **The stand-in.** A call without a format, or with a capacity but no destination, returns -1,
sets the error number 22 and changes nothing else. Any other call has the result of the host's
formatter. It leaves one record if the log takes such records and the option word has a bit besides
the one that is known, and none otherwise. The record shows these bits, and no two words that differ
in one of them have the same. -/
theorem standIn_rejects_or_forwards (b : Build) (level : LogLevel) (x : Extras) (r : Request)
    (buffer : Bytes) :
    (r.format = none ∨ r.dest = none ∧ r.capacity ≠ 0 →
      b.standIn level x r buffer =
        (.returned { value := -1, errno := 22, buffer, cells := r.cells }, [])) ∧
    (r.format ≠ none ∧ (r.dest ≠ none ∨ r.capacity = 0) →
      (∀ (logging : Bool) (level' : LogLevel),
        (b.standIn level x r buffer).1 = ((mk .hosted logging).write level' r buffer).1) ∧
      (b.Logs level ∧ (∃ i ≠ 1, x.options.toNat.testBit i = true) →
        ∃ record, (b.standIn level x r buffer).2 = [record] ∧ record.Shows x.options) ∧
      (¬ (b.Logs level ∧ ∃ i ≠ 1, x.options.toNat.testBit i = true) →
        (b.standIn level x r buffer).2 = []) ∧
      (b.Logs level → ∀ y : Extras,
        (b.standIn level x r buffer).2 = (b.standIn level y r buffer).2 ↔
          ∀ i ≠ 1, x.options.toNat.testBit i = y.options.toNat.testBit i)) := by
  refine ⟨fun hlacks => standIn_of_lacking (Request.lacking_iff.2 hlacks) b level x buffer,
    fun hmeets => ?_⟩
  have hlacking : r.lacking = false := by
    rw [← Bool.not_eq_true, Request.lacking_iff]
    rintro (hfmt | ⟨hdest, hcapacity⟩)
    · exact hmeets.1 hfmt
    · exact hmeets.2.elim (absurd hdest) (absurd · hcapacity)
  simp only [standIn_of_not_lacking hlacking, ← Extras.ignored_ne_zero_iff]
  refine ⟨fun _ _ => rfl, fun ⟨hlogs, hbits⟩ => ?_, fun hnot => ?_, fun hlogs y => ?_⟩
  · rw [hlogs.logged_eq, if_neg hbits]
    exact ⟨_, rfl, ignoredRecord_shows x⟩
  · by_cases hlogs : b.Logs level
    · rw [hlogs.logged_eq, if_pos (Classical.not_not.1 fun hbits => hnot ⟨hlogs, hbits⟩)]
    · exact logged_of_not_logs hlogs x
  · exact hlogs.logged_eq_logged_iff

/-- Calls with three option bits, two of which are ignored: one without a format, and one of which
a part of the text fits. -/
theorem standIn_rejects_or_forwards_three_bits :
    let b : Build := { engine := .freestanding, logging := true }
    let x : Extras := { options := 0x8000000000000003, localeNull := false }
    let y : Extras := { options := 0x8000000000000001, localeNull := true }
    let r : Request :=
      { dest := some 1, capacity := 3, format := some ("%d%n".toList.map Char.toUInt8),
        args := [.word 421, .cell 0], errno := 2, cells := [[0xa5, 0xa5, 0xa5, 0xa5]] }
    let buffer : Bytes := List.replicate 5 0xa5
    b.standIn .trace x { r with format := none } buffer =
        (.returned { value := -1, errno := 22, buffer, cells := r.cells }, []) ∧
      (b.standIn .trace x r buffer).1 = ((mk .hosted false).write .off r buffer).1 ∧
      (∃ record, (b.standIn .trace x r buffer).2 = [record] ∧ record.Shows x.options) ∧
      ((b.standIn .trace x r buffer).2 = (b.standIn .trace y r buffer).2 ↔
        ∀ i ≠ 1, x.options.toNat.testBit i = y.options.toNat.testBit i) := by
  intro b x y r buffer
  have hlogs : b.Logs .trace := ⟨rfl, .inr rfl⟩
  obtain ⟨hresult, hrecord, -, hwords⟩ :=
    (standIn_rejects_or_forwards b .trace x r buffer).2 ⟨nofun, .inl nofun⟩
  exact ⟨(standIn_rejects_or_forwards b .trace x { r with format := none } buffer).1 (.inl rfl),
    hresult false .off, hrecord ⟨hlogs, 0, by decide, by decide⟩, hwords hlogs y⟩

end Build

end FormattedOutput
