import TruthLint.Analysis
import TruthLint.Command.Outcome
import TruthLint.Command.Request
import TruthLint.Config.Lookup
import TruthLint.Report.Document
import TruthLint.Report.Listing

/-! The command that analyses files and reports what it finds in them. -/

namespace TruthLint

/-- Extensions of C and C++ files. -/
def sourceExtensions : List String :=
  ["c", "cc", "cpp", "cxx", "c++", "h", "hh", "hpp", "hxx"]

def Path.isSource (path : Path) : Bool :=
  path.extension?.any fun extension =>
    sourceExtensions.contains (String.ofList (extension.toList.map Char.toLower))

/-- Whether two lists of names stand in order, which their first difference decides; a list comes
before any that it begins. -/
def inNameOrder (a b : List String) : Bool := !List.lex b a fun x y => decide (x < y)

/-- Whether a search goes on at a name: it is neither hidden nor excluded. -/
def Config.admits (config : Config) (name : String) : Bool :=
  !Text.startsWith name "." && !config.exclude.contains name

namespace FileSystem

/-- The source files that a path stands for, or nothing if there is no such path. A file stands
for itself, whatever its name is, and a directory for the files below it, in the order of their
names. -/
def sources? (fs : FileSystem) (config : Config) (path : Path) : Option (List Path) :=
  match fs.tree? path with
  | .error _ => none
  | .ok (.file _) => some (if path.isSource then [path] else [])
  | .ok (.directory entries) =>
    let found := (FileTree.directory entries).files config.admits
    let sorted := found.mergeSort inNameOrder
    some ((sorted.map fun names => names.foldl Path.join path).filter Path.isSource)

end FileSystem

namespace Registry

/-- The findings in a list of files. Files that cannot be read are skipped. -/
def analyzeAll (registry : Registry) (grammar : Grammar) (fs : FileSystem) (paths : List Path) :
    List Diagnostic :=
  paths.flatMap fun path =>
    match fs.read path with
    | .ok text => registry.analyze (.parse grammar path.render text)
    | .error _ => []

end Registry

namespace Command

namespace CheckRequest

/-- The configuration, where the options of the command line come first. -/
def override (request : CheckRequest) (config : Config) : Config :=
  let ask (asked : Bool) (setting : Option Bool) : Option Bool :=
    if asked then some true else setting
  let inconclusive := ask request.inconclusive config.checks.inconclusive
  let experimental := ask request.experimental config.checks.experimental
  { config with checks := { config.checks with inconclusive, experimental } }

/-- Whether a finding of a severity makes the command fail. -/
def failsOn (request : CheckRequest) : Severity → Bool
  | .error => true
  | .warning => request.failOnWarnings
  | .style => false

def palette (request : CheckRequest) (session : Session) : Report.Palette :=
  .ofBool (session.inColour && !request.noColour && (session.environment "NO_COLOR").isNone)

/-- The report in the format that is asked for, if there is such a format. -/
def report? (request : CheckRequest) (session : Session) (registry : Registry) (totalFiles : Nat)
    (ds : List Diagnostic) : Option (List String) :=
  match request.format with
  | "text" => some (Report.listing (request.palette session) true ds)
  | "json" =>
    let subject : Report.Subject :=
      ⟨session.files.workingPath.render, request.path, totalFiles⟩
    some [(Report.document subject registry.ruleName? ds).render]
  | _ => none

/-- Reads the configuration, looks for files, analyses them and reports. The format only matters
once there is something to report on. -/
def run (request : CheckRequest) (session : Session) : Outcome :=
  let path := Path.ofText request.path
  let loaded := Config.loadFor session.files path
  let config := request.override loaded.config
  let label := (request.palette session).bold .yellow "warning:"
  let warnings := loaded.warnings.map fun warning => s!"{label} {warning}"
  let refuse (message : String) : Outcome :=
    let failure := Outcome.failure [] message none
    { failure with errors := warnings ++ failure.errors }
  match session.files.sources? config path with
  | none => refuse s!"Path does not exist: {request.path}"
  | some [] => ⟨["No C/C++ files found."], warnings, 0⟩
  | some paths =>
    let registry := Registry.builtin config.checks
    let ds := registry.analyzeAll session.grammar session.files paths
    match request.report? session registry paths.length ds with
    | none => refuse s!"Invalid format '{request.format}'. Valid values: text, json"
    | some lines =>
      ⟨lines, warnings, if ds.any fun d => request.failsOn d.severity then 1 else 0⟩

end CheckRequest

end Command

end TruthLint
