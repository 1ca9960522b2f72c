import TruthLint.Diagnostic

/-! Settings that decide which rules run and with which severity they report. -/

namespace TruthLint

/-- Settings as a configuration gives them; what it leaves out has a default. -/
structure ChecksConfig where
  style : Option Bool
  warning : Option Bool
  inconclusive : Option Bool
  experimental : Option Bool
  /-- Rules that never run, by id or by name. -/
  disabled : List String
  /-- Severities that replace those of rules, by id or by name. -/
  severity : List (String × Severity)
deriving DecidableEq, Repr

namespace ChecksConfig

def empty : ChecksConfig := ⟨none, none, none, none, [], []⟩

/-- Every kind of rule is allowed. -/
def all : ChecksConfig := ⟨some true, some true, some true, some true, [], []⟩

end ChecksConfig

structure Checks where
  style : Bool
  warning : Bool
  inconclusive : Bool
  experimental : Bool
  disabled : List String
  severity : List (String × Severity)
deriving DecidableEq, Repr

namespace Checks

/-- Rules that are inconclusive or experimental only run on request. -/
def ofConfig (config : ChecksConfig) : Checks where
  style := config.style.getD true
  warning := config.warning.getD true
  inconclusive := config.inconclusive.getD false
  experimental := config.experimental.getD false
  disabled := config.disabled
  severity := config.severity

end Checks

end TruthLint
