import TruthLint.Analysis
import TruthLint.Reduction.Block

/-! Reduction of a source around one finding. Lines are emptied and not deleted, so that the
finding keeps its line number, and they stay empty only if an oracle says that the finding still
appears. -/

namespace TruthLint.Reduction

/-- Says whether a text still produces the finding. It is told how often it was asked before, so
that it may change its mind. -/
abbrev Oracle := (call : Nat) → (text : String) → Bool

/-- The oracle that asks for a finding of any rule on a line. -/
def Oracle.ofAnalysis (grammar : Grammar) (file : String) (line : Nat) : Oracle := fun _ text =>
  ((Registry.builtin .all).analyze (.parse grammar file text)).any (·.line == line)

inductive StepKind where
  | inclusion | declaration | block
deriving DecidableEq, Repr

/-- An attempt to empty the lines from number `first` to number `last`, which count from one. -/
structure Step where
  kind : StepKind
  first : Nat
  last : Nat
  removed : Bool
deriving DecidableEq, Repr

namespace Step

def render (step : Step) : String :=
  let verb := if step.removed then "removed" else "kept"
  match step.kind with
  | .inclusion => s!"{verb} #include at line {step.first}"
  | .declaration => s!"{verb} declaration at line {step.first}"
  | .block => s!"{verb} block of code at lines {step.first}-{step.last}"

end Step

inductive Failure where
  | notReproduced | cleanupFailed
deriving DecidableEq, Repr

namespace Failure

def message : Failure → String
  | notReproduced => "Can't reproduce the finding in the original file"
  | cleanupFailed => "Cleanup failed"

end Failure

/-- The lines with those from `first` to `last` emptied. -/
def blank (first last : Nat) (lines : List Line) : List Line :=
  lines.mapIdx fun i line => if first ≤ i ∧ i ≤ last then [] else line

/-- Each line followed by a line feed. -/
def render (lines : List Line) : String := String.ofList (lines.flatMap (· ++ ['\n']))

/-- The state of a reduction. -/
structure Reducer where
  lines : List Line
  /-- The attempts of the current run, in order. -/
  steps : Array Step
  /-- The texts that the oracle was asked about in all runs, in order. -/
  asked : Array String

namespace Reducer

def initial : Reducer := ⟨[], #[], #[]⟩

def ask (oracle : Oracle) (r : Reducer) (text : String) : Bool × Reducer :=
  (oracle r.asked.size text, { r with asked := r.asked.push text })

/-- Empties lines if the finding survives that; the first part of the result says so. Lines are
addressed from zero, and put on record under their numbers from one. -/
def tryBlank (oracle : Oracle) (kind : StepKind) (first last : Nat) (r : Reducer) :
    Bool × Reducer :=
  let blanked := blank first last r.lines
  let (removed, r) := r.ask oracle (render blanked)
  (removed,
    { r with
      lines := if removed then blanked else r.lines
      steps := r.steps.push ⟨kind, first + 1, last + 1, removed⟩ })

def removeInclude (oracle : Oracle) (r : Reducer) (i : Nat) : Reducer :=
  if r.lines[i]?.any fun line => (Text.afterLead? "#include".toList line).isSome then
    (r.tryBlank oracle .inclusion i i).2
  else r

/-- Empties the blocks that follow line `anchor`, one after the other, until one has to stay. -/
def removeBlocks (oracle : Oracle) : (bound : Nat) → (anchor : Nat) → Reducer → Reducer
  | 0, _, r => r
  | bound + 1, anchor, r =>
    match findBlock? r.lines (anchor + 1) with
    | some (first, last) =>
      let (removed, r) := r.tryBlank oracle .block first last
      if removed then removeBlocks oracle bound last r else r
    | none => r

/-- Tries line `i` as a declaration, and then the blocks after it if it ends something at the top
level. -/
def removeAt (oracle : Oracle) (r : Reducer) (i : Nat) : Reducer :=
  match r.lines[i]?.bind List.head?, r.lines[i]?.bind List.getLast? with
  | some first, some last =>
    let r :=
      if first.isAlpha && last == ';' then (r.tryBlank oracle .declaration i i).2 else r
    if !Text.isBlank first && (last == '\x7d' || last == ';') then
      removeBlocks oracle r.lines.length i r
    else r
  | _, _ => r

/-- The lines that are left. -/
def output (r : Reducer) : String := render (r.lines.filter fun line => !line.isEmpty)

/-- Reduces a source. Unless the finding appears in it, nothing but the record of the oracle
changes. -/
def reduce (oracle : Oracle) (source : String) (r : Reducer) : Except Failure String × Reducer :=
  let (found, r) := r.ask oracle source
  if !found then (.error .notReproduced, r)
  else
    let lines := normalize source
    let (found, r) := { r with lines, steps := #[] }.ask oracle (render lines)
    if !found then (.error .cleanupFailed, r)
    else
      let order := List.range lines.length
      let r := order.foldl (removeInclude oracle) r
      let r := order.foldl (removeAt oracle) r
      (.ok r.output, r)

end Reducer

end TruthLint.Reduction
