import TruthLint.Report.Json
import TruthLint.Report.Tally
import TruthLint.Rule.Registry

/-! The report for other programs, as a JSON document. -/

namespace TruthLint

/-- The version of the program. -/
def version : String := "0.1.0"

namespace Report

/-- What was analysed. -/
structure Subject where
  workingDirectory : String
  path : String
  totalFiles : Nat
deriving DecidableEq, Repr

/-- A member for an optional text; there is none if the text is absent. -/
def optionalMember (key : String) : Option String → List (String × Json)
  | some s => [(key, .string s)]
  | none => []

def Json.ofPosition (pos : Position) : Json :=
  .object [("line", .number pos.line), ("column", .number pos.column)]

/-- A finding; `ruleName?` tells the names of the rules that are known. -/
def Json.ofDiagnostic (ruleName? : String → Option String) (d : Diagnostic) : Json :=
  .object <|
    [("rule_id", .string d.ruleId)] ++ optionalMember "rule_name" (ruleName? d.ruleId) ++
    [("severity", .string d.severity.name),
      ("inconclusive", .bool d.inconclusive),
      ("message", .string d.message),
      ("location", .object [
        ("file", .string d.file),
        ("start", .ofPosition d.start),
        ("end", .ofPosition d.stop)])] ++
    optionalMember "explanation" d.explanation ++ optionalMember "suggestion" d.suggestion

def Json.ofTally (t : Tally) : Json :=
  .object [("error", .number t.error), ("warning", .number t.warning), ("style", .number t.style)]

def document (subject : Subject) (ruleName? : String → Option String) (ds : List Diagnostic) :
    Json :=
  .object [
    ("version", .string "1.0"),
    ("metadata", .object [
      ("boolcheck_version", .string version),
      ("working_directory", .string subject.workingDirectory),
      ("analyzed_path", .string subject.path)]),
    ("summary", .object [
      ("total_files", .number subject.totalFiles),
      ("files_with_issues", .number (ds.map Diagnostic.file).eraseDups.length),
      ("total_diagnostics", .number ds.length),
      ("by_severity", .ofTally (.ofDiagnostics ds))]),
    ("diagnostics", .array (ds.map (.ofDiagnostic ruleName?)))]

end Report

/-- The name of the first rule with an id. -/
def Registry.ruleName? (registry : Registry) (id : String) : Option String :=
  (registry.rule? id).map (·.info.name)

end TruthLint
