import FormattedOutput.Selection.Choice

/-! The environment of a build: variables whose values are bytes, and what
a build reads from them. -/

namespace FormattedOutput.Selection

/-- The value of each variable that is set. -/
abbrev Environment := String → Option Bytes

/-- Why the text of a variable cannot be had. -/
inductive VariableError where
  /-- The variable is not set. -/
  | notPresent
  /-- The value of the variable is not UTF-8. -/
  | notText (value : Bytes)
  deriving DecidableEq, Repr

/-- The text of an error. -/
def VariableError.message : VariableError → String
  | notPresent => "NotPresent"
  | notText value => "NotUnicode(" ++ Text.quoteBytes value ++ ")"

namespace Environment

/-- The text of a variable. -/
def text (env : Environment) (key : String) : Except VariableError String :=
  match env key with
  | none => .error .notPresent
  | some value =>
    match Utf8.decode? value with
    | some cs => .ok (String.ofList cs)
    | none => .error (.notText value)

/-- The text of a variable, empty if it cannot be had. -/
def textOrEmpty (env : Environment) (key : String) : String :=
  (env.text key).toOption.getD ""

/-- The target that an environment describes. -/
def target (env : Environment) : Target where
  os := env.textOrEmpty "CARGO_CFG_TARGET_OS"
  env := env.textOrEmpty "CARGO_CFG_TARGET_ENV"
  abi := env.textOrEmpty "CARGO_CFG_TARGET_ABI"
  family := families (env.textOrEmpty "CARGO_CFG_TARGET_FAMILY")

/-- The variable that enables a feature by having a text, whatever it is. -/
def featureVariable (feature : String) : String :=
  "CARGO_FEATURE_" ++ feature.map fun c => if c = '-' then '_' else c.toUpper

/-- Whether an environment enables a feature. -/
def enables (env : Environment) (feature : String) : Bool :=
  (env.text (featureVariable feature)).isOk

end Environment

end FormattedOutput.Selection
