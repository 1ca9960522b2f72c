import TruthLint.Reduction.Normalize

/-! Blocks at the top level of a source. A block is a header, a line that only holds an opening
brace, an indented body, and a closing brace in the first column. -/

namespace TruthLint.Reduction

open Text

def openBrace : Line := ['\x7b']
def closeBrace : Line := ['\x7d']

/-- Whether a line ends a block. -/
def closesBlock (line : Line) : Bool := line == closeBrace || line == closeBrace ++ [';']

/-- A header goes on over more lines if its first one opens a list that it does not close. -/
def opensList (line : Line) : Bool := line.contains '(' && !line.contains ')'

/-- Whether a line has a parenthesis that opens, or a brace. -/
def opensMore (line : Line) : Bool := line.any fun c => c == '(' || c == '\x7b' || c == '\x7d'

/-- The number of lines up to the one that closes the list of a header, and the lines after it.
The lines between must not be empty. -/
def listEnd? : List Line → Option (Nat × List Line)
  | [] => none
  | line :: rest =>
    if line.isEmpty || opensMore line then none
    else if line.contains ')' then some (1, rest)
    else (listEnd? rest).map fun (count, rest) => (count + 1, rest)

/-- The number of lines of a body and its closing line. -/
def bodyLength? : List Line → Option Nat
  | [] => none
  | line :: rest =>
    if line.head?.all isBlank then (bodyLength? rest).map (· + 1)
    else if closesBlock line then some 1
    else none

/-- The number of lines of the block that starts with the first line. -/
def blockLength? : List Line → Option Nat
  | [] => none
  | header :: rest => do
    guard (header.head?.any Char.isAlpha)
    let (count, rest) ← if opensList header then listEnd? rest else some (0, rest)
    match rest with
    | brace :: body =>
      guard (brace = openBrace)
      (bodyLength? body).map (count + 2 + ·)
    | [] => none

/-- The first and last line of the block that starts with the first non-empty line at or after
line `start`; lines count from zero. -/
def findBlock? (lines : List Line) (start : Nat) : Option (Nat × Nat) :=
  let rest := lines.drop start
  let first := start + (rest.takeWhile List.isEmpty).length
  (blockLength? (rest.dropWhile List.isEmpty)).map fun count => (first, first + count - 1)

end TruthLint.Reduction
