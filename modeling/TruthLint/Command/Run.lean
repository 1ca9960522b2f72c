import TruthLint.Command.Check
import TruthLint.Command.Explain
import TruthLint.Command.Reduce

/-! The whole program: from a command line to what it does. -/

namespace TruthLint.Command

def programName : String := "boolcheck"

def usage : List String :=
  ["Fast checker for boolean misuse in C and C++ code", "",
    s!"Usage: {programName} check [OPTIONS] PATH",
    s!"       {programName} explain RULE_ID",
    s!"       {programName} reduce [--output FILE] FILE LINE"]

def Request.run (session : Session) : Request → Action
  | .check request => .done (request.run session)
  | .explain rule => .done (explainRule rule session)
  | .reduce request => request.run session
  | .help => .done ⟨usage, [], 0⟩
  | .version => .done ⟨[s!"{programName} {TruthLint.version}"], [], 0⟩

/-- What a command line does. One that is no use exits with code 2. -/
def run (session : Session) (arguments : List String) : Action :=
  match Request.ofArguments arguments with
  | .ok request => request.run session
  | .error misuse => .done ⟨[], [s!"error: {misuse.message}"], 2⟩

end TruthLint.Command
