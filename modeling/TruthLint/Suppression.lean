import TruthLint.Text.Lines
import TruthLint.Text.Search

/-! Directives in comments that suppress diagnostics. A directive names the line to which it
applies and the rules that it disables there, by id or by name; one that names no rule disables
all of them. -/

namespace TruthLint

structure Directive where
  line : Nat
  rules : List String
deriving DecidableEq, Repr

namespace Directive

def disablesAll (d : Directive) : Bool := d.rules.isEmpty

def disables (d : Directive) (rule : String) : Bool := d.disablesAll || d.rules.contains rule

/-- Two directives for one line disable what either of them does. -/
def merge (d e : Directive) : Directive :=
  { d with rules := if d.disablesAll || e.disablesAll then [] else d.rules ++ e.rules }

/-- The text of the first comment on a line, blanks aside. A line comment is looked for first,
even within a block comment. -/
def comment? (line : List Char) : Option (List Char) :=
  match Text.cut? ['/', '/'] line with
  | some (_, comment) => some (Text.trimChars comment)
  | none =>
    (Text.cut? ['/', '*'] line).map fun (_, rest) =>
      match Text.cut? ['*', '/'] rest with
      | some (comment, _) => Text.trimChars comment
      | none => Text.trimChars rest

/-- The rules that a directive lists, separated by commas. -/
def ruleRefs (rest : List Char) : List String :=
  let refs := (Text.splitAt ',' (Text.trimChars rest)).map Text.trimChars
  (refs.filter fun ref => !ref.isEmpty).map String.ofList

def nextLineMark : List Char := "boolcheck-disable-next-line".toList
def lineMark : List Char := "boolcheck-disable-line".toList

/-- The directive in the comment of a line with the given number. -/
def ofLine? (number : Nat) (line : List Char) : Option Directive := do
  let comment ← comment? line
  match Text.afterLead? nextLineMark comment with
  | some rest => some ⟨number + 1, ruleRefs rest⟩
  | none => (Text.afterLead? lineMark comment).map fun rest => ⟨number, ruleRefs rest⟩

end Directive

/-- Directives in the order of their lines, one for each line. -/
abbrev Directives := List Directive

namespace Directives

/-- Adds a directive, merged with the one that its line has already. -/
def add (d : Directive) : Directives → Directives
  | [] => [d]
  | e :: es =>
    if d.line < e.line then d :: e :: es
    else if d.line = e.line then e.merge d :: es
    else e :: add d es

def addAll (ds : Directives) (added : List Directive) : Directives :=
  added.foldl (fun ds d => add d ds) ds

/-- Whether a rule, given by its id or its name, is disabled on a line. -/
def disabled (ds : Directives) (line : Nat) (rule : String) : Bool :=
  ds.any fun d => d.line == line && d.disables rule

/-- The directives in the comments of a source text. -/
def ofText (text : String) : Directives :=
  addAll [] ((Text.lines text.toList).zipIdx.filterMap fun (line, index) =>
    Directive.ofLine? (index + 1) line)

end Directives

end TruthLint
