import TruthLint.Command.Run
import TruthLint.Cst.Archive

/-! The program. What a request may ask of the disk is read first; then the request is carried out
on that alone, and what it leaves behind is written. -/

namespace TruthLint

/-- The names on the way to a place on the disk. -/
def diskNames (place : String) : List String := (place.splitOn "/").filter (· != "")

/-- The content of a file. One that cannot be read counts as one that holds no text. -/
def loadFile (place : String) : IO FileTree := do
  try
    return .file (← IO.FS.readBinFile place)
  catch _ =>
    return .file ⟨#[0xff]⟩

/-- All that is below a place. Entries that lead nowhere are left out. -/
partial def loadBelow (place : String) : IO FileTree := do
  let here ← IO.FS.realPath place
  if ← here.isDir then
    let mut entries := #[]
    for entry in ← here.readDir do
      try
        entries := entries.push (entry.fileName, ← loadBelow s!"{place}/{entry.fileName}")
      catch _ => pure ()
    return .directory entries.toList
  else loadFile place

/-- Adds a path with all its steps, and with what is below it if that is asked for. -/
def loadPath (below : Bool) (tree : FileTree) (path : Path) : IO FileTree := do
  let mut tree := tree
  for count in List.range (path.segments.length + 1) do
    let step : Path := ⟨path.absolute, path.segments.take count⟩
    let place := if step = ⟨false, []⟩ then "." else step.render
    try
      let here ← IO.FS.realPath place
      let names := diskNames here.toString
      if below && count == path.segments.length then
        tree := .put (← loadBelow place) names tree
      else if (tree.find? names).isNone then
        tree := .put (← if ← here.isDir then pure (.directory []) else loadFile place) names tree
    catch _ => pure ()
  return tree

namespace Command.Request

/-- The paths whose configuration may apply. -/
def configured (working : Path) : Request → List Path
  | check request => (Path.ofText request.path).ancestors
  | explain _ => working.ancestors
  | _ => []

/-- Other paths that are looked at. -/
def used : Request → List Path
  | reduce request => [.ofText request.file, request.target]
  | _ => []

/-- Paths that are looked at with all that is below them. -/
def searched : Request → List Path
  | check request => [.ofText request.path]
  | _ => []

end Command.Request

/-- The part of the disk that a request may look at. -/
def loadFor (request : Command.Request) : IO FileSystem := do
  let working := diskNames (← IO.currentDir).toString
  let empty := FileTree.put (.directory []) working (.directory [])
  let configurations :=
    (request.configured ⟨true, working⟩).map fun path => path.join Config.fileName
  let tree ← request.searched.foldlM (loadPath true) empty
  let tree ← (request.used ++ configurations).foldlM (loadPath false) tree
  return ⟨tree, working⟩

/-- The syntax trees in the archive that the environment names. -/
def loadGrammar : IO Grammar := do
  let some path ← IO.getEnv "BOOLCHECK_TREES" | return .ofTrees []
  let some trees := Cst.Archive.read? (← IO.FS.readFile path)
    | throw (IO.userError s!"{path} is no archive of syntax trees")
  return .ofTrees trees

def loadSession (request : Command.Request) : IO Command.Session := do
  let names := ["CLICOLOR", "CLICOLOR_FORCE", "NO_COLOR"]
  let values ← names.filterMapM fun name => return (← IO.getEnv name).map (name, ·)
  return {
    grammar := ← loadGrammar
    files := ← loadFor request
    environment := fun name => values.lookup name
    terminal := ← (← IO.getStdout).isTty }

end TruthLint

open TruthLint in
def main (arguments : List String) : IO UInt32 := do
  let request := (Command.Request.ofArguments arguments).toOption.getD .help
  let session ← loadSession request
  let action := Command.run session arguments
  let (outcome, _) := action.perform session.files
  if outcome.code = 0 then
    if let .write path text _ := action then IO.FS.writeFile path.render text
  IO.print (Text.joinLines outcome.output)
  IO.eprint (Text.joinLines outcome.errors)
  return outcome.code.toUInt32
