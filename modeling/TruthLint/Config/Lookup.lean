import TruthLint.Config.Basic
import TruthLint.FileSystem.Basic

/-! Configuration files: the one that applies to a path, and what is read from it. -/

namespace TruthLint.Config

inductive LoadError where
  | unreadable (path : Path) (cause : FileError)
  | malformed (path : Path)
deriving DecidableEq, Repr

namespace LoadError

def message : LoadError → String
  | unreadable path cause => s!"Failed to read config file '{path.render}': {cause.message}"
  | malformed path => s!"Invalid TOML in '{path.render}'"

end LoadError

/-- A configuration and the warnings that reading it gave. -/
structure Loaded where
  config : Config
  warnings : List String
deriving DecidableEq, Repr

/-- The first configuration file in the directories of a path, from its last step upward. -/
def find? (fs : FileSystem) (start : Path) : Option Path :=
  (start.ancestors.map fun path => path.join fileName).find? fs.hasPath

def load (fs : FileSystem) (path : Path) : Except LoadError Loaded :=
  match fs.read path with
  | .error cause => .error (.unreadable path cause)
  | .ok text =>
    match Toml.read? text with
    | none => .error (.malformed path)
    | some entries =>
      match Config.ofToml? entries with
      | none => .error (.malformed path)
      | some config => .ok ⟨config, warnings entries⟩

/-- What the configuration file for a path gives. Without a file the configuration is empty, and
a file that cannot be loaded only gives a warning. -/
def loadFor (fs : FileSystem) (start : Path) : Loaded :=
  match find? fs start with
  | none => ⟨.empty, []⟩
  | some path =>
    match load fs path with
    | .ok loaded => loaded
    | .error e => ⟨.empty, [e.message]⟩

end TruthLint.Config
