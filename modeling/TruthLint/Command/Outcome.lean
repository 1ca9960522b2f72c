import TruthLint.FileSystem.Basic
import TruthLint.SourceFile

/-! What a command starts from and what it leaves behind. -/

namespace TruthLint.Command

structure Session where
  grammar : Grammar
  files : FileSystem
  environment : String → Option String
  /-- Whether the output goes to a terminal. -/
  terminal : Bool

namespace Session

/-- Whether reports are coloured unless a command decides otherwise: on demand, or on a terminal
where nothing speaks against it. -/
def inColour (session : Session) : Bool :=
  let isOn (name : String) : Option Bool := (session.environment name).map (· != "0")
  isOn "CLICOLOR_FORCE" == some true ||
    ((session.environment "NO_COLOR").isNone && session.terminal && (isOn "CLICOLOR").getD true)

end Session

/-- The lines that a command writes and the code that it exits with. -/
structure Outcome where
  output : List String
  errors : List String
  code : Nat
deriving DecidableEq, Repr

namespace Outcome

/-- A failure after some output, with the cause of it if it has one. -/
def failure (output : List String) (message : String) (cause : Option String) : Outcome where
  output
  errors := s!"Error: {message}" :: match cause with
    | some cause => ["", "Caused by:", "    " ++ cause]
    | none => []
  code := 1

end Outcome

/-- What a command does last: nothing, or write a file and end as that went. -/
inductive Action where
  | done (outcome : Outcome)
  | write (path : Path) (text : String) (after : Option FileError → Outcome)

namespace Action

/-- The outcome of an action and the files after it. -/
def perform (files : FileSystem) : Action → Outcome × FileSystem
  | done outcome => (outcome, files)
  | write path text after =>
    match files.write path text with
    | .ok changed => (after none, changed)
    | .error e => (after (some e), files)

end Action

end TruthLint.Command
