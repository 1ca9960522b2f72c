import TruthLint.Cst.Row
import TruthLint.Number.Decimal
import TruthLint.Text.Reader

/-! Archives of syntax trees, as a separate parser writes them: one source text after the other,
each with the rows of its tree. A text comes after a line with its length and the number of its
rows. The cells of a row end in tabs, and a cell that says nothing is empty. -/

namespace TruthLint.Cst.Archive

open Text (Reader)

def number : Reader Nat := do
  return Number.ofDecimalDigits (← Reader.takeSome Number.isDecimalDigit)

/-- What `r` reads, up to a tab. -/
def cell {α : Type} (r : Reader α) : Reader α := do
  let a ← r
  Reader.char '\t'
  return a

def word : Reader String := do
  return String.ofList (← Reader.takeWhile (· != '\t'))

def row : Reader Row := do
  let parent ← cell (Reader.maybe number)
  let kind ← cell word
  let flags ← cell number
  let field ← cell word
  let start ← cell number
  let stop ← cell number
  Reader.char '\n'
  return {
    parent, kind, start, stop
    named := flags.testBit 0
    isError := flags.testBit 1
    isMissing := flags.testBit 2
    hasError := flags.testBit 3
    field := if field.isEmpty then none else some field }

def entry : Reader (String × Node) := do
  let length ← number
  Reader.char ' '
  let count ← number
  Reader.char '\n'
  let source := String.ofList (← Reader.exactly length fun _ => true)
  Reader.char '\n'
  let rows ← (List.replicate count ()).mapM fun _ => row
  return (source, .ofRows source rows)

/-- The texts of an archive with their trees, if it is well formed. -/
def read? (text : String) : Option (List (String × Node)) := do
  let entries : Reader (List (String × Node)) := do
    let found ← Reader.many entry
    Reader.atEnd
    return found
  return (← entries text.toList).1

end TruthLint.Cst.Archive
