import TruthLint.Position

/-! Diagnostics and their one-line rendering. -/

namespace TruthLint

inductive Severity where
  | error | warning | style
deriving DecidableEq, Repr

namespace Severity

def name : Severity → String
  | error => "error"
  | warning => "warning"
  | style => "style"

def ofName? : String → Option Severity
  | "error" => some error
  | "warning" => some warning
  | "style" => some style
  | _ => none

end Severity

structure Diagnostic where
  ruleId : String
  severity : Severity
  /-- Whether the finding carries a known risk of being wrong. -/
  inconclusive : Bool
  message : String
  file : String
  start : Position
  stop : Position
  explanation : Option String
  suggestion : Option String
deriving DecidableEq, Repr

namespace Diagnostic

def line (d : Diagnostic) : Nat := d.start.line

/-- The severity may be shown in another way, such as in colour. -/
def renderWith (showSeverity : Severity → String) (d : Diagnostic) : String :=
  let remark := if d.inconclusive then ", inconclusive" else ""
  s!"[{d.file}:{d.line}]: ({showSeverity d.severity}{remark}) {d.message}"

def render (d : Diagnostic) : String := d.renderWith Severity.name

end Diagnostic

end TruthLint
