import TruthLint.Cst.Node

/-! Syntax trees written as rows in preorder. Each row names its parent by number, and offsets
count the bytes of the source text. -/

namespace TruthLint.Cst

structure Row where
  /-- The number of the parent's row; the root has none. -/
  parent : Option Nat
  kind : String
  named : Bool
  isError : Bool
  isMissing : Bool
  hasError : Bool
  field : Option String
  start : Nat
  stop : Nat
deriving DecidableEq, Repr

namespace Row

def label (source : List Char) (number : Nat) (row : Row) : Label where
  kind := .ofName row.kind
  field := row.field.bind Field.ofName?
  named := row.named
  isError := row.isError
  isMissing := row.isMissing
  hasError := row.hasError
  row := number
  start := row.start
  position := .ofOffset source row.start
  text := Text.slice source row.start row.stop

/-- Puts a row in front of the subtrees of later rows that still wait for their parent, and
takes those that name it. -/
def attach (source : List Char) (numbered : Row × Nat) (waiting : List (Option Nat × Node)) :
    List (Option Nat × Node) :=
  let (row, number) := numbered
  let (own, others) := waiting.partition (·.1 == some number)
  (row.parent, .mk (row.label source number) (own.map (·.2))) :: others

end Row

/-- A source that is not parsed has a tree with a single node. -/
def Node.bare : Node :=
  .mk ⟨.ofName "translation_unit", none, true, false, false, false, 0, 0, .start, ""⟩ []

/-- The tree that rows in preorder describe: the first subtree that has no parent. -/
def Node.ofRows (source : String) (rows : List Row) : Node :=
  let text := source.toList
  let trees := rows.zipIdx.foldr (Row.attach text) []
  match trees.find? (·.1.isNone) with
  | some (_, tree) => tree
  | none => .bare

end TruthLint.Cst
