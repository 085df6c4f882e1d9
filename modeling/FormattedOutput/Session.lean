import FormattedOutput.EntryPoint

/-! Sessions: steps over one buffer, each of which sees what the steps before it left there. -/

namespace FormattedOutput

/-- A step of a session. -/
inductive Step where
  /-- Ask for the constants of the build. -/
  | constants
  /-- Set every byte of the buffer. -/
  | fill (byte : UInt8)
  /-- A formatted write by the engine of the build. -/
  | write (level : LogLevel) (r : Request)
  /-- A call of the stand-in's entry point. -/
  | standIn (level : LogLevel) (x : Extras) (r : Request)
  deriving DecidableEq, Repr

/-- What a step shows. -/
inductive Answer where
  | constants (engine : String) (behavior : UInt64)
  | filled (buffer : Bytes)
  | called (result : Result) (trace : Trace)
  deriving DecidableEq, Repr

/-- The buffer that a result leaves, if the process goes on after it. -/
def Result.buffer? : Result → Option Bytes
  | .returned reply => some reply.buffer
  | .aborted | .undefined => none

/-- The buffer behind a step, if the process goes on after it. -/
def Answer.buffer? (before : Bytes) : Answer → Option Bytes
  | constants .. => some before
  | filled buffer => some buffer
  | called result _ => result.buffer?

namespace Build

/-- What a step shows. -/
def answer (b : Build) (buffer : Bytes) : Step → Answer
  | .constants => .constants b.engine.name standardBehavior
  | .fill byte => .filled (List.replicate buffer.length byte)
  | .write level r =>
    let (result, trace) := b.write level r buffer
    .called result trace
  | .standIn level x r =>
    let (result, log) := b.standIn level x r buffer
    .called result { log }

/-- What the steps of a session show. None is taken behind one that ends the process. -/
def session (b : Build) : (buffer : Bytes) → List Step → List Answer
  | _, [] => []
  | buffer, step :: steps =>
    let answer := b.answer buffer step
    match answer.buffer? buffer with
    | some buffer => answer :: b.session buffer steps
    | none => [answer]

end Build

end FormattedOutput
