import TruthLint.Text.Search

/-! Paths as they are written. Joining and leaving a path works on its text alone, so that `..` is
a step like any other and is only given its meaning when the path is looked up. -/

namespace TruthLint

/-- A path as the pieces between its slashes. An absolute path has a slash in front of all. -/
structure Path where
  absolute : Bool
  segments : List String
deriving DecidableEq, Repr

namespace Path

def ofText (text : String) : Path :=
  let pieces (cs : List Char) : List String :=
    if cs.isEmpty then [] else (Text.splitAt '/' cs).map String.ofList
  match text.toList with
  | '/' :: cs => ⟨true, pieces cs⟩
  | cs => ⟨false, pieces cs⟩

def render (p : Path) : String :=
  (if p.absolute then "/" else "") ++ "/".intercalate p.segments

/-- The path of a name below a path. A slash at the end is not doubled. -/
def join (p : Path) (name : String) : Path :=
  match p.segments.getLast? with
  | some "" => ⟨p.absolute, p.segments.dropLast ++ [name]⟩
  | _ => ⟨p.absolute, p.segments ++ [name]⟩

/-- Drops pieces at the end that lead nowhere: empty ones and dots. -/
def dropIdle (segments : List String) : List String :=
  (segments.reverse.dropWhile fun s => s == "" || s == ".").reverse

theorem length_dropIdle_le (segments : List String) :
    (dropIdle segments).length ≤ segments.length := by
  have h := (List.dropWhile_sublist (fun s : String => s == "" || s == ".")
    (l := segments.reverse)).length_le
  simpa [dropIdle] using h

/-- The pieces without idle ones at the end. A dot that begins a relative path is a step. -/
def steps (p : Path) : List String :=
  match p.absolute, p.segments with
  | false, "." :: rest => "." :: dropIdle rest
  | _, segments => dropIdle segments

/-- The path without its last step, if it has any. -/
def parent? (p : Path) : Option Path :=
  if p.steps.isEmpty then none
  else some ⟨p.absolute, steps ⟨p.absolute, p.steps.dropLast⟩⟩

/-- At most `bound` paths: the path, the one without its last step, and so on. -/
def upward (bound : Nat) (p : Path) : List Path :=
  match bound with
  | 0 => []
  | bound + 1 => p :: (p.parent?.map (upward bound)).getD []

/-- The path and all that are left when its last steps are taken away one by one. -/
def ancestors (p : Path) : List Path := p.upward (p.segments.length + 1)

/-- The name at the end of a path, unless it ends in a dot step. -/
def name? (p : Path) : Option String :=
  p.steps.getLast?.filter fun s => s != "." && s != ".."

/-- What follows the last dot of the name, unless that dot begins the name. -/
def extension? (p : Path) : Option String := do
  let reversed := (← p.name?).toList.reverse
  match reversed.dropWhile (· != '.') with
  | _ :: _ :: _ => some (String.ofList (reversed.takeWhile (· != '.')).reverse)
  | _ => none

end Path

end TruthLint
