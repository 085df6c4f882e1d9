import FormattedOutput.Call
import FormattedOutput.Engine

/-! The entry points of the engines. The engines of the Universal C Runtime go through an entry
point that takes an option word and a locale besides. The stand-in for it heeds neither, and logs
the option bits that it does not know. -/

namespace FormattedOutput

/-- How much a log holds. -/
inductive LogLevel where
  | off
  | error
  | warn
  | info
  | debug
  | trace
  deriving DecidableEq, Repr

/-- The rank of a level: a log at a level holds the records of no higher rank. -/
def LogLevel.rank : LogLevel → Nat
  | off => 0
  | error => 1
  | warn => 2
  | info => 3
  | debug => 4
  | trace => 5

/-- A record in a log. -/
structure LogRecord where
  level : LogLevel
  target : String
  message : String
  deriving DecidableEq, Repr

/-- The option bit that asks for a text cut to its capacity and for the length of all of it. -/
def standardBehavior : UInt64 := 2

/-- The entry point's other arguments: the option word, and whether the locale is null. -/
structure Extras where
  options : UInt64
  localeNull : Bool
  deriving DecidableEq, Repr

/-- The other arguments that a formatted write passes. -/
def Extras.standard : Extras := { options := standardBehavior, localeNull := true }

/-- The record of the option bits that are ignored. -/
def ignoredRecord (bits : UInt64) : LogRecord where
  level := .debug
  target := "snprintf_shim::ucrt"
  message := "ignoring `__stdio_common_vsprintf` options 0x" ++
    String.ofList (Nat.toDigits 16 bits.toNat)

/-- A build: its engine, and whether it can log. -/
structure Build where
  engine : Engine
  logging : Bool
  deriving DecidableEq, Repr

/-- What the stand-in's entry point logs, if it calls the host's formatter. -/
def Build.logged (b : Build) (level : LogLevel) (x : Extras) : List LogRecord :=
  let ignored := x.options &&& ~~~standardBehavior
  if b.logging ∧ ignored ≠ 0 ∧ LogLevel.debug.rank ≤ level.rank then [ignoredRecord ignored] else []

/-- A call of the stand-in's entry point, and what it logs. -/
def Build.standIn (b : Build) (level : LogLevel) (x : Extras) (r : Request) (buffer : Bytes) :
    Result × List LogRecord :=
  (checked Hosted.call r buffer, if r.lacking then [] else b.logged level x)

/-- What the entry point of the Universal C Runtime received in a call. -/
structure Forwarded where
  extras : Extras
  destNull : Bool
  capacity : Nat
  formatNull : Bool
  deriving DecidableEq, Repr

/-- What a call leaves besides its result: the records in the log, and the calls that were forwarded
to the Universal C Runtime. -/
structure Trace where
  log : List LogRecord := []
  forwarded : List Forwarded := []
  deriving DecidableEq, Repr

/-- A formatted write by the engine of a build. -/
def Build.write (b : Build) (level : LogLevel) (r : Request) (buffer : Bytes) : Result × Trace :=
  match b.engine with
  | .hosted => (Hosted.call r buffer, {})
  | .freestanding => (Freestanding.call r buffer, {})
  | .standIn =>
    let (result, log) := b.standIn level .standard r buffer
    (result, { log })
  | .ucrt =>
    let call : Forwarded :=
      { extras := .standard, destNull := r.dest.isNone, capacity := r.capacity,
        formatNull := r.format.isNone }
    (checked Hosted.call r buffer, { forwarded := [call] })

end FormattedOutput
