import FormattedOutput.Text.Quoted

/-! The platform that a build is for. -/

namespace FormattedOutput.Selection

/-- What is known of the platform that a build is for. -/
structure Target where
  os : String := ""
  env : String := ""
  abi : String := ""
  family : List String := []
  deriving DecidableEq, Repr

/-- A target as diagnostics show it. -/
def Target.describe (t : Target) (isHidden : Char → Bool := Text.hidden) : String :=
  "TargetInfo \x7b os: " ++ Text.quote t.os isHidden ++ ", env: " ++ Text.quote t.env isHidden ++
    ", abi: " ++ Text.quote t.abi isHidden ++ ", family: " ++
      Text.quoteList t.family isHidden ++ " \x7d"

/-- The families listed in a text: its parts between commas, the empty ones left out. -/
def families (s : String) : List String :=
  ((s.toList.splitOn ',').filter (· ≠ [])).map String.ofList

end FormattedOutput.Selection
