import FormattedOutput.Selection.Rule

/-! The choice of an engine. One override feature decides alone; without any, the first rule that
fits the target decides; several overrides contradict each other. -/

namespace FormattedOutput.Selection

/-- Why no engine was chosen. -/
inductive ChoiceError where
  /-- No rule fits the target. -/
  | noEngine (target : Target)
  /-- More than one override is enabled. -/
  | conflictingOverrides (features : List String)
  deriving DecidableEq, Repr

/-- The text of an error. -/
def ChoiceError.message (e : ChoiceError) (isHidden : Char → Bool := Text.hidden) : String :=
  match e with
  | noEngine target =>
    "no `snprintf` engine for " ++ target.describe isHidden ++
      "; enable one of the `engine-*` features (`engine-printf-compat` works without a C runtime)"
  | conflictingOverrides features =>
    "conflicting engine features enabled: " ++ Text.quoteList features isHidden ++
      "; enable at most one"

/-- The engine that the first fitting rule names. -/
def ruled (rules : List Rule) (target : Target) : Option Engine :=
  (rules.find? (·.fits target)).map Rule.engine

/-- The choice, given the engines whose override is enabled. -/
def choiceFrom (overrides : List Engine) (rules : List Rule) (target : Target) :
    Except ChoiceError Engine :=
  match overrides with
  | [] =>
    match ruled rules target with
    | some engine => .ok engine
    | none => .error (.noEngine target)
  | [engine] => .ok engine
  | engines => .error (.conflictingOverrides (engines.map Engine.feature))

/-- The choice, asking for each engine whether its override is enabled. -/
def chooseM {m : Type → Type} [Monad m] (target : Target) (rules : List Rule)
    (enabled : String → m Bool) : m (Except ChoiceError Engine) := do
  let overrides ← Engine.all.filterM fun engine => enabled engine.feature
  return choiceFrom overrides rules target

/-- The choice under a fixed set of enabled features. -/
def choose (target : Target) (rules : List Rule) (enabled : String → Bool) :
    Except ChoiceError Engine :=
  Id.run (chooseM target rules fun feature => pure (enabled feature))

/-- The choice together with the features it asked for, in the order in which it asked. -/
def chooseAsking (target : Target) (rules : List Rule) (enabled : String → Bool) :
    Except ChoiceError Engine × List String :=
  let ask (feature : String) : StateM (List String) Bool := do
    modify (· ++ [feature])
    return enabled feature
  Id.run ((chooseM target rules ask).run [])

end FormattedOutput.Selection
