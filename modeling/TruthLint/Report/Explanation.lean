import TruthLint.Report.Colour
import TruthLint.Rule.Basic
import TruthLint.Text.Lines

/-! The page that explains a rule. -/

namespace TruthLint.Report

/-- A labelled line of the page. -/
def field (palette : Palette) (label value : String) : String :=
  "  " ++ palette.plain .cyan label ++ ": " ++ value

/-- How the rule reports, and what has to be asked for before it does. -/
def traits (palette : Palette) (info : RuleInfo) : List String :=
  let severity := palette.plain (.ofSeverity info.severity) info.severity.name
  field palette "Severity" severity ::
    (if info.inconclusive then
      [field palette "Confidence" "inconclusive (run with --inconclusive)"] else []) ++
    if info.experimental then
      [field palette "Stage" "experimental (run with --experimental)"] else []

def exampleLines (palette : Palette) : Option String → List String
  | some examples =>
    let shown := (Text.lines examples.toList).map fun line => "    " ++ String.ofList line
    ["", "  " ++ palette.plain .cyan "Examples" ++ ":"] ++ shown
  | none => []

def statusLine (palette : Palette) (enabled : Bool) : String :=
  field palette "Status"
    (if enabled then palette.plain .green "enabled" else palette.plain .red "disabled")

def explanation (palette : Palette) (info : RuleInfo) (enabled : Bool) : List String :=
  ["", palette.strong s!"Rule {info.id}", "",
    field palette "Name" info.name, field palette "Description" info.description] ++
    traits palette info ++ exampleLines palette info.examples ++
    ["", statusLine palette enabled, ""]

end TruthLint.Report
