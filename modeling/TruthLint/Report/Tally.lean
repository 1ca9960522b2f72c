import TruthLint.Diagnostic

/-! How many findings there are of each severity. -/

namespace TruthLint.Report

structure Tally where
  error : Nat
  warning : Nat
  style : Nat
deriving DecidableEq, Repr

namespace Tally

def ofDiagnostics (ds : List Diagnostic) : Tally where
  error := ds.countP (·.severity = .error)
  warning := ds.countP (·.severity = .warning)
  style := ds.countP (·.severity = .style)

def total (t : Tally) : Nat := t.error + t.warning + t.style

/-- Every finding is counted once. -/
theorem total_ofDiagnostics (ds : List Diagnostic) : (ofDiagnostics ds).total = ds.length := by
  induction ds with
  | nil => rfl
  | cons d ds ih =>
    simp only [ofDiagnostics, total, List.length_cons] at ih ⊢
    cases h : d.severity <;> simp [h] <;> omega

end Tally

end TruthLint.Report
