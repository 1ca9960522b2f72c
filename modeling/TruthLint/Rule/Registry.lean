import TruthLint.Checks
import TruthLint.Rule.Comparison
import TruthLint.Rule.Operator

/-! Registered rules and the settings under which they run. Rules run in the order of their
registration. -/

namespace TruthLint

namespace Checks

/-- Whether a rule runs. Its own severity counts here, not the one that replaces it. -/
def admits (checks : Checks) (info : RuleInfo) : Bool :=
  let severity := match info.severity with
    | .style => checks.style
    | .warning => checks.warning
    | .error => true
  (!info.experimental || checks.experimental) && (!info.inconclusive || checks.inconclusive) &&
    severity && !checks.disabled.contains info.id && !checks.disabled.contains info.name

/-- The severity that replaces that of a rule; one for its id goes before one for its name. -/
def replacement? (checks : Checks) (info : RuleInfo) : Option Severity :=
  (checks.severity.lookup info.id).or (checks.severity.lookup info.name)

end Checks

structure Registry where
  rules : List Rule
  checks : Checks

namespace Registry

def empty : Registry := ⟨[], .ofConfig .empty⟩

def register (registry : Registry) (rule : Rule) : Registry :=
  { registry with rules := registry.rules ++ [rule] }

/-- Replaces all settings. -/
def configure (registry : Registry) (config : ChecksConfig) : Registry :=
  { registry with checks := .ofConfig config }

/-- The findings of a rule with the severity that the settings ask for. -/
def run (registry : Registry) (file : SourceFile) (rule : Rule) : List Diagnostic :=
  match registry.checks.replacement? rule.info with
  | some severity => (rule.check file).map fun d => { d with severity }
  | none => rule.check file

def runAll (registry : Registry) (file : SourceFile) : List Diagnostic :=
  (registry.rules.filter fun rule => registry.checks.admits rule.info).flatMap (registry.run file)

/-- The first rule with an id. -/
def rule? (registry : Registry) (id : String) : Option Rule :=
  registry.rules.find? (·.info.id == id)

/-- The first rule with a name. -/
def ruleNamed? (registry : Registry) (name : String) : Option Rule :=
  registry.rules.find? (·.info.name == name)

/-- The first rule with an id or, failing that, with a name. -/
def find? (registry : Registry) (ref : String) : Option Rule :=
  (registry.rule? ref).or (registry.ruleNamed? ref)

def isEnabled (registry : Registry) (ref : String) : Bool :=
  (registry.find? ref).any fun rule => registry.checks.admits rule.info

end Registry

/-- The built-in rules. -/
def ExprRule.builtins : List ExprRule :=
  [bitwiseOnBoolean, incrementBoolean, assignBoolToPointer, boolExpressionWithInt, boolWithInt,
    functionReturningBool, boolWithBool]

/-- The built-in rules under given settings. -/
def Registry.builtin (config : ChecksConfig) : Registry :=
  ⟨ExprRule.builtins.map ExprRule.toRule, .ofConfig config⟩

end TruthLint
