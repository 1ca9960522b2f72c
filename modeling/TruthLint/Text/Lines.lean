/-! Lines of a text. A line ends at a line feed, and only a non-empty remainder after the last
line feed counts as a line of its own. -/

namespace TruthLint.Text

/-- The lines that a line feed ends, without it, and what follows the last line feed. -/
def breakLines : List Char → List (List Char) × List Char
  | [] => ([], [])
  | c :: rest =>
    let (ended, tail) := breakLines rest
    if c = '\n' then ([] :: ended, tail)
    else match ended with
      | [] => ([], c :: tail)
      | line :: ended => ((c :: line) :: ended, tail)

/-- Nothing is lost: the lines with their line feeds and the remainder make up the text. -/
theorem breakLines_join (cs : List Char) :
    (breakLines cs).1.flatMap (· ++ ['\n']) ++ (breakLines cs).2 = cs := by
  induction cs with
  | nil => rfl
  | cons c rest ih =>
    rw [breakLines]
    rcases hb : breakLines rest with ⟨ended, tail⟩
    rw [hb] at ih
    by_cases hc : c = '\n'
    · simp [hc, ← ih]
    · cases ended with
      | nil => simp [hc, ← ih]
      | cons line ended => simp [hc, ← ih]

/-- Drops one carriage return at the end. -/
def dropCarriageReturn (line : List Char) : List Char :=
  match line.reverse with
  | '\r' :: rest => rest.reverse
  | _ => line

/-- The lines of a text; a carriage return before a line feed belongs to the line's end. -/
def lines (cs : List Char) : List (List Char) :=
  let (ended, tail) := breakLines cs
  ended.map dropCarriageReturn ++ if tail.isEmpty then [] else [tail]

/-- A pass over a text, in bytes: the ranges of the lines that have ended, where the current line
starts, and where the pass is. -/
structure LineScan where
  ranges : Array (Nat × Nat)
  start : Nat
  offset : Nat

def LineScan.step (scan : LineScan) (c : Char) : LineScan :=
  if c = '\n' then
    ⟨scan.ranges.push (scan.start, scan.offset), scan.offset + 1, scan.offset + c.utf8Size⟩
  else ⟨scan.ranges, scan.start, scan.offset + c.utf8Size⟩

/-- The ranges of the lines of a text in bytes, line feeds left out and carriage returns kept. -/
def lineRanges (cs : List Char) : Array (Nat × Nat) :=
  let scan := cs.foldl LineScan.step ⟨#[], 0, 0⟩
  if scan.start < scan.offset ∨ scan.start = 0 ∧ cs ≠ [] then
    scan.ranges.push (scan.start, scan.offset)
  else scan.ranges

/-- Each line followed by a line feed. -/
def joinLines (ls : List String) : String := String.join (ls.map (· ++ "\n"))

end TruthLint.Text
