import TruthLint.Report.Colour
import TruthLint.Report.Tally

/-! The report for readers: a line for each finding, and a summary if there is any. -/

namespace TruthLint.Report

/-- A finding on one line, with its severity in bold colour. -/
def findingLine (palette : Palette) (d : Diagnostic) : String :=
  d.renderWith fun severity => palette.bold (.ofSeverity severity) severity.name

def suggestionLine (palette : Palette) (suggestion : String) : String :=
  "  " ++ palette.plain .green "suggestion:" ++ " " ++ suggestion

def findingLines (palette : Palette) (withSuggestions : Bool) (d : Diagnostic) : List String :=
  findingLine palette d :: match withSuggestions, d.suggestion with
    | true, some suggestion => [suggestionLine palette suggestion]
    | _, _ => []

def Tally.render (t : Tally) : String :=
  s!"Found {t.error} error(s), {t.warning} warning(s) and {t.style} style issue(s)"

def listing (palette : Palette) (withSuggestions : Bool) (ds : List Diagnostic) : List String :=
  ds.flatMap (findingLines palette withSuggestions) ++
    if ds.isEmpty then [] else ["", (Tally.ofDiagnostics ds).render]

/-- Without colour a finding is shown as it renders itself. -/
theorem findingLine_colourless (d : Diagnostic) : findingLine .colourless d = d.render := rfl

end TruthLint.Report
