import FormattedOutput.Selection.Script

/-! The parts of the program that a build can hold. A part is compiled in if a setting of its gate
is made, and if the part that encloses it is. Which engine a build uses is read off its settings. -/

namespace FormattedOutput.Selection

/-- A part of the program that only some builds hold. -/
inductive Part where
  /-- The engine over the host's formatter. -/
  | hosted
  /-- The freestanding engine. -/
  | freestanding
  /-- What concerns the Universal C Runtime. -/
  | ucrtModule
  /-- The declaration of the Universal C Runtime's entry point. -/
  | ucrtEntry
  /-- The engine over the Universal C Runtime's entry point. -/
  | ucrt
  /-- The entry point that stands in for the one of the Universal C Runtime. -/
  | standInEntry
  /-- The engine over the stand-in's entry point. -/
  | standIn
  /-- The public name of what concerns the Universal C Runtime. -/
  | ucrtExport
  deriving DecidableEq, Repr

/-- The setting that names an engine. -/
def engineSetting (e : Engine) : String := "snprintf_engine=\"" ++ e.name ++ "\""

/-- The setting that the host's formatter is available. -/
def hostSetting : String := "snprintf_host_vsnprintf"

/-- The setting that a feature is enabled. -/
def featureSetting (feature : String) : String := "feature=\"" ++ feature ++ "\""

namespace Part

/-- The settings of which one has to be made for a part to be compiled in. -/
def gate : Part → List String
  | hosted | standInEntry | standIn => [hostSetting]
  | freestanding => [featureSetting Engine.freestanding.feature]
  | ucrtModule | ucrtExport => [engineSetting .ucrt, hostSetting]
  | ucrtEntry | ucrt => [engineSetting .ucrt]

/-- The part that encloses a part. -/
def enclosing : Part → Option Part
  | ucrtEntry | ucrt | standInEntry | standIn => some ucrtModule
  | hosted | freestanding | ucrtModule | ucrtExport => none

/-- Whether a part is compiled in. -/
def compiled (settings : List String) (p : Part) : Bool :=
  p.gate.any settings.contains && p.enclosing.all fun q => q.gate.any settings.contains

/-- The parts that a part refers to. -/
def needs : Part → List Part
  | standIn => [standInEntry]
  | standInEntry => [hosted]
  | ucrt => [ucrtEntry]
  | ucrtExport => [ucrtModule]
  | hosted | freestanding | ucrtModule | ucrtEntry => []

/-- The part that is an engine. -/
def ofEngine : Engine → Part
  | .hosted => hosted
  | .ucrt => ucrt
  | .standIn => standIn
  | .freestanding => freestanding

end Part

/-- The engine that a build with some settings uses, if they name one. -/
def engineOf (settings : List String) : Option Engine :=
  [Engine.ucrt, .standIn, .hosted, .freestanding].find? fun e => settings.contains (engineSetting e)

/-- The setting that a printed line makes, if it makes one. -/
def setting? (line : String) : Option String :=
  let mark := "cargo:rustc-cfg=".toList
  if mark.isPrefixOf line.toList then some (String.ofList (line.toList.drop mark.length)) else none

/-- The settings of a build: those that a run printed, and the enabled override features. -/
def Run.settings (r : Run) (env : Environment) : List String :=
  r.lines.filterMap setting? ++
    ((Engine.all.map Engine.feature).filter env.enables).map featureSetting

end FormattedOutput.Selection
