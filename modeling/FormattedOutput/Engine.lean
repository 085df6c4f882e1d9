/-! The engines that can carry out a formatted write, with the names under
which a build knows them. -/

namespace FormattedOutput

/-- What carries out a formatted write. -/
inductive Engine where
  /-- The formatter of the host's C runtime. -/
  | hosted
  /-- The entry point of the Universal C Runtime. -/
  | ucrt
  /-- An entry point that stands in for the one of the Universal C Runtime,
  over the host's formatter. -/
  | standIn
  /-- A formatter of its own, which needs no C runtime. -/
  | freestanding
  deriving DecidableEq, Repr

namespace Engine

/-- Every engine, in the order in which overrides are looked for. -/
def all : List Engine := [hosted, ucrt, standIn, freestanding]

/-- The name of an engine in a build's configuration. -/
def name : Engine → String
  | hosted => "vsnprintf"
  | ucrt => "ucrt"
  | standIn => "ucrt_standin"
  | freestanding => "printf_compat"

/-- The feature that overrides the choice in favour of an engine. -/
def feature : Engine → String
  | hosted => "engine-vsnprintf"
  | ucrt => "engine-ucrt"
  | standIn => "engine-ucrt-standin"
  | freestanding => "engine-printf-compat"

/-- Whether an engine calls the formatter of the host's C runtime. -/
def usesHost : Engine → Bool
  | hosted | standIn => true
  | ucrt | freestanding => false

theorem mem_all (e : Engine) : e ∈ all := by cases e <;> decide

end Engine

end FormattedOutput
