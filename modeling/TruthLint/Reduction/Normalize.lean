import TruthLint.Text.Lines
import TruthLint.Text.Search

/-! The canonical form of the lines of a source: comments are gone, all blanks are spaces, nothing
blank ends a line, and directives start in the first column. -/

namespace TruthLint.Reduction

open Text

abbrev Line := List Char

/-- Whatever is blank or no ASCII character becomes a space. -/
def plain (c : Char) : Char := if isAscii c && !isAsciiBlank c then c else ' '

theorem length_of_cut? {piece cs before rest : List Char}
    (h : cut? piece cs = some (before, rest)) :
    before.length + piece.length + rest.length = cs.length := by
  rw [eq_append_of_cut? h, List.length_append, List.length_append]

/-- Removes the block comments that start on a line; the second part says whether the last of
them is still open at its end. What stands around a comment may open another one. -/
def dropBlockComments (line : Line) : Line × Bool :=
  match _opened : cut? ['/', '*'] line with
  | none => (line, false)
  | some (before, rest) =>
    match _closed : cut? ['*', '/'] rest with
    | none => (before, true)
    | some (_, after) => dropBlockComments (before ++ after)
termination_by line.length
decreasing_by
  have h := length_of_cut? _opened
  have h' := length_of_cut? _closed
  simp only [List.length_append, List.length_cons, List.length_nil] at h h' ⊢
  omega

/-- Removes the comments of a line. `inComment` says whether a block comment is open at its start,
and the second part of the result says so of its end. -/
def dropComments (inComment : Bool) (line : Line) : Line × Bool :=
  let (line, inComment) :=
    if inComment then
      match cut? ['*', '/'] line with
      | some (_, after) => dropBlockComments after
      | none => ([], true)
    else dropBlockComments line
  match cut? ['/', '/'] line with
  | some (before, _) => (before, inComment)
  | none => (line, inComment)

/-- Drops blanks at the end, and those before a `#` at the start. -/
def align (line : Line) : Line :=
  let trimmed := line.dropWhile (· == ' ')
  match trimmed with
  | '#' :: _ => dropEndWhile isBlank trimmed
  | [] => []
  | _ => dropEndWhile isBlank line

def normalizeLines (inComment : Bool) : List Line → List Line
  | [] => []
  | raw :: rest =>
    let (line, inComment) := dropComments inComment (raw.map plain)
    align line :: normalizeLines inComment rest

/-- The canonical lines of a source. -/
def normalize (source : String) : List Line := normalizeLines false (lines source.toList)

end TruthLint.Reduction
