import TruthLint.Command.Outcome
import TruthLint.Command.Request
import TruthLint.Reduction.Reducer

/-! The command that shrinks a file while a finding stays on its line. -/

namespace TruthLint.Command

namespace ReduceRequest

/-- The file to write: by default one in the working directory with the extension of the source. -/
def target (request : ReduceRequest) : Path :=
  match request.output with
  | some path => .ofText path
  | none =>
    match (Path.ofText request.file).extension? with
    | some extension => ⟨false, ["__out__." ++ extension]⟩
    | none => ⟨false, ["__out__"]⟩

/-- Reduces a source and writes the result. -/
def reduceText (request : ReduceRequest) (session : Session) (source : String) : Action :=
  let intent := s!"make sure the finding at line {request.line} reproduces"
  let oracle := Reduction.Oracle.ofAnalysis session.grammar request.file request.line
  match Reduction.Reducer.initial.reduce oracle source with
  | (.error failure, _) => .done (.failure [intent] failure.message none)
  | (.ok reduced, reducer) =>
    let target := request.target
    let lines := intent :: (reducer.steps.toList.map Reduction.Step.render)
    .write target reduced fun
      | none => ⟨lines ++ [s!"reduced code written to {target.render}"], [], 0⟩
      | some e => .failure lines s!"Failed to write {target.render}" (some e.message)

def run (request : ReduceRequest) (session : Session) : Action :=
  match session.files.read (.ofText request.file) with
  | .ok source => request.reduceText session source
  | .error e => .done (.failure [] s!"Failed to read {request.file}" (some e.message))

end ReduceRequest

end TruthLint.Command
