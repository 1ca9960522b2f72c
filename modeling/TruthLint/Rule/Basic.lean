import TruthLint.Classification
import TruthLint.Diagnostic
import TruthLint.SourceFile
import TruthLint.Visit

/-! Rules. A rule that judges expressions looks at each operator, assignment and call on its own,
and reports at most one finding for it. -/

namespace TruthLint

structure RuleInfo where
  id : String
  name : String
  description : String
  severity : Severity
  inconclusive : Bool
  experimental : Bool
  examples : Option String
deriving DecidableEq, Repr

namespace RuleInfo

/-- A diagnostic of the rule at a position. -/
def diagnostic (info : RuleInfo) (message file : String) (pos : Position) : Diagnostic :=
  { ruleId := info.id
    severity := info.severity
    inconclusive := info.inconclusive
    message
    file
    start := pos
    stop := pos
    explanation := none
    suggestion := none }

end RuleInfo

structure Rule where
  info : RuleInfo
  check : SourceFile → List Diagnostic

/-- What is wrong with an expression. -/
structure Finding where
  pos : Position
  message : String
  explanation : Option String
  suggestion : Option String
deriving DecidableEq, Repr

/-- A rule that judges one expression at a time. -/
structure ExprRule where
  info : RuleInfo
  finding? : Model → Site → Expr → Option Finding

namespace ExprRule

/-- Collects the findings of a walk, in order. -/
def collect (rule : ExprRule) (model : Model) : Visitor (Array Finding) := fun site e found =>
  .next (match rule.finding? model site e with
    | some finding => found.push finding
    | none => found)

def findings (rule : ExprRule) (model : Model) : List Finding :=
  ((rule.collect model).walkModel model #[]).toList

def diagnostic (rule : ExprRule) (file : String) (finding : Finding) : Diagnostic :=
  { rule.info.diagnostic finding.message file finding.pos with
    explanation := finding.explanation
    suggestion := finding.suggestion }

def toRule (rule : ExprRule) : Rule where
  info := rule.info
  check file := (rule.findings file.model).map (rule.diagnostic file.name)

end ExprRule

end TruthLint
