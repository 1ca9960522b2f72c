import TruthLint.Rule.Registry

/-! The analysis of a file: the rules run, suppressed findings are dropped, the others are ordered
by line, and repeated ones are left out. -/

namespace TruthLint

namespace Diagnostic

/-- What makes two findings the same. -/
def key (d : Diagnostic) : String × Nat × String := (d.ruleId, d.line, d.message)

/-- The first diagnostic with each key that is not among those seen. -/
def distinct (seen : List (String × Nat × String)) : List Diagnostic → List Diagnostic
  | [] => []
  | d :: ds =>
    if seen.contains d.key then distinct seen ds else d :: distinct (d.key :: seen) ds

end Diagnostic

namespace Registry

/-- Whether a directive on the line of a finding disables its rule, by id or by name. -/
def suppressed (registry : Registry) (directives : Directives) (d : Diagnostic) : Bool :=
  directives.disabled d.line d.ruleId ||
    (registry.rule? d.ruleId).any fun rule => directives.disabled d.line rule.info.name

def analyze (registry : Registry) (file : SourceFile) : List Diagnostic :=
  let found := (registry.runAll file).filter fun d => !registry.suppressed file.directives d
  Diagnostic.distinct [] (found.mergeSort fun d e => d.line ≤ e.line)

end Registry

end TruthLint
