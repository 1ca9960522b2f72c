import TruthLint.Cst.Fault
import TruthLint.Cst.Row
import TruthLint.Suppression
import TruthLint.Model

/-! Source files with what is read from them: the syntax tree, the directives and the semantic
model. -/

namespace TruthLint

inductive Language where
  | c | cpp
deriving DecidableEq, Repr

/-- The language that the extension of a file name tells. Without any dot the whole name counts
as the extension. -/
def Language.ofFileName (name : String) : Language :=
  let extension := ((Text.splitAt '.' name.toList).getLast?.getD []).map Char.toLower
  if extension = ['c'] then .c else .cpp

/-- The syntax tree of each source text. -/
abbrev Grammar := String → Cst.Node

/-- The trees of a list; any other text has a tree with a single node. -/
def Grammar.ofTrees (trees : List (String × Cst.Node)) : Grammar := fun text =>
  (trees.lookup text).getD .bare

structure SourceFile where
  name : String
  text : String
  tree : Cst.Node
  directives : Directives
  model : Model

namespace SourceFile

def parse (grammar : Grammar) (name text : String) : SourceFile :=
  let tree := grammar text
  ⟨name, text, tree, .ofText text, .ofTree tree⟩

def language (file : SourceFile) : Language := .ofFileName file.name

def faults (file : SourceFile) : List Cst.Fault := file.tree.faults

def hasFaults (file : SourceFile) : Bool := !file.faults.isEmpty

def lineCount (file : SourceFile) : Nat := (Text.lines file.text.toList).length

/-- The line with a number from one on, without its line feed. -/
def line? (file : SourceFile) : (number : Nat) → Option String
  | 0 => none
  | index + 1 =>
    let text := file.text.toList
    (Text.lineRanges text)[index]?.map fun (first, last) => Text.slice text first last

end SourceFile

end TruthLint
