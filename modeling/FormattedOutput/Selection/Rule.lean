import FormattedOutput.Engine
import FormattedOutput.Selection.Target

/-! Rules that give targets their engine. In a table of rules the first that matches decides. -/

namespace FormattedOutput.Selection

/-- A rule asks for some properties of a target, and names the engine for targets that have them. A
property that is `none` is not asked for. -/
structure Rule where
  os : Option String := none
  env : Option String := none
  abi : Option String := none
  family : Option String := none
  engine : Engine
  deriving DecidableEq, Repr

/-- Whether a target has the properties that a rule asks for. -/
def Rule.fits (r : Rule) (t : Target) : Bool :=
  r.os.all (· == t.os) && r.env.all (· == t.env) && r.abi.all (· == t.abi) &&
    r.family.all (t.family.contains ·)

/-- The rules for the targets that have an engine without an override. -/
def defaultRules : List Rule :=
  [{ os := some "windows", env := some "msvc", engine := .ucrt },
   { os := some "windows", env := some "gnu", abi := some "llvm", engine := .hosted },
   { os := some "windows", env := some "gnu", engine := .standIn },
   { os := some "wasi", engine := .hosted },
   { family := some "unix", engine := .hosted }]

end FormattedOutput.Selection
