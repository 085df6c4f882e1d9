import FormattedOutput.Selection.Environment
import FormattedOutput.Selection.Program

/-! The configuration of a build. The script probes the compiler, chooses an engine, and prints what
the build has to know. It stops at the first fault, and what was printed by then stands. -/

namespace FormattedOutput.Selection

/-- How a compiler is called: its arguments, and what is written to its input. -/
structure Probe where
  args : List String
  input : String
  deriving DecidableEq, Repr

/-- Why a script stops. -/
inductive Fault where
  /-- A variable that the script needs has no text. -/
  | unreadable (error : VariableError)
  /-- The compiler cannot be started, given the probe or waited for. -/
  | noVerdict (error : SystemError)
  /-- The compiler lacks what the build needs. -/
  | unfitCompiler
  /-- No engine was chosen. -/
  | unchosen (error : ChoiceError)
  deriving DecidableEq, Repr

/-- The text of a fault that comes with the error it is owed to. -/
def uncaughtMessage (error : String) : String :=
  "called `Result::unwrap()` on an `Err` value: " ++ error

/-- The text of a fault. -/
def Fault.message : Fault → String
  | unreadable error => uncaughtMessage error.message
  | noVerdict error => uncaughtMessage error.message
  | unfitCompiler => "snprintf-shim needs a nightly rustc with `#![feature(c_variadic)]`"
  | unchosen error => error.message

/-- A run of the script: the lines it prints, the call of the compiler if one was started, and the
fault that stops it, if any. -/
structure Run where
  lines : List String
  probe : Option Probe
  fault : Option Fault
  deriving DecidableEq, Repr

/-- The exit status of a run. -/
def Run.exitCode (r : Run) : Nat := if r.fault.isNone then 0 else 101

/-- The call that tests a compiler, with a directory for what it writes. -/
def probeIn (directory : String) : Probe where
  args := ["--crate-type=rlib", "--emit=metadata", "--out-dir", directory, "-"]
  input := "#![feature(c_variadic)]\n"

/-- The lines that name the files a run depends on. -/
def watchLines : List String :=
  ["cargo:rerun-if-changed=build.rs", "cargo:rerun-if-changed=build/resolution.rs"]

/-- The lines that declare the settings a run may make. -/
def declarationLines : List String :=
  ["cargo:rustc-check-cfg=cfg(snprintf_engine, values(" ++
      ", ".intercalate (Engine.all.map fun e => "\"" ++ e.name ++ "\"") ++ "))",
    "cargo:rustc-check-cfg=cfg(snprintf_host_vsnprintf)"]

/-- Whether the formatter of the host is available: the chosen engine calls it, or the one that the
rules give the target does. -/
def hostAvailable (engine : Engine) (native : Option Engine) : Bool :=
  engine.usesHost || native.any Engine.usesHost

/-- The lines that set the chosen engine. -/
def settingLines (engine : Engine) (native : Option Engine) : List String :=
  ["cargo:rustc-cfg=snprintf_engine=\"" ++ engine.name ++ "\""] ++
    (if hostAvailable engine native then ["cargo:rustc-cfg=snprintf_host_vsnprintf"] else []) ++
    ["cargo:rustc-env=SNPRINTF_SHIM_ENGINE=" ++ engine.name]

/-- Test the compiler that an environment names, and give the call if one was started. -/
def testCompiler (env : Environment) (compilers : String → Compiler) :
    Except Fault Unit × Option Probe :=
  match env.text "OUT_DIR" with
  | .error error => (.error (.unreadable error), none)
  | .ok directory =>
    match env.text "RUSTC" with
    | .error error => (.error (.unreadable error), none)
    | .ok program =>
      match compilers program with
      | .unstartable error => (.error (.noVerdict error), none)
      | .unwritable error | .unwaitable error =>
        (.error (.noVerdict error), some (probeIn directory))
      | .rejects => (.error .unfitCompiler, some (probeIn directory))
      | .accepts => (.ok (), some (probeIn directory))

/-- A run of the script. The programs that could be started are given by what becomes of them. -/
def configure (env : Environment) (compilers : String → Compiler) : Run :=
  match testCompiler env compilers with
  | (.error fault, probe) => { lines := watchLines, probe, fault := some fault }
  | (.ok (), probe) =>
    match choose env.target defaultRules env.enables with
    | .error error =>
      { lines := watchLines ++ declarationLines, probe, fault := some (.unchosen error) }
    | .ok engine =>
      { lines := watchLines ++ declarationLines ++
          settingLines engine (ruled defaultRules env.target)
        probe, fault := none }

end FormattedOutput.Selection
