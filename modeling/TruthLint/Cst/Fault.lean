import TruthLint.Cst.Node

/-! Faults of a syntax tree: regions that could not be parsed and nodes that had to be supplied.
Below a fault nothing else is reported. -/

namespace TruthLint.Cst

inductive FaultKind where
  | unparsed
  | missing (kind : Kind)
deriving DecidableEq, Repr

structure Fault where
  kind : FaultKind
  position : Position
deriving DecidableEq, Repr

namespace Fault

def message (fault : Fault) : String :=
  match fault.kind with
  | .unparsed => "syntax error"
  | .missing kind => "missing `" ++ kind.name ++ "`"

def render (fault : Fault) : String :=
  s!"{fault.message} at {fault.position.line}:{fault.position.column}"

end Fault

namespace Node

/-- The number of nodes in some trees. -/
def extent (nodes : List Node) : Nat := (preorderAll nodes).length

theorem extent_append (first second : List Node) :
    extent (first ++ second) = extent first + extent second := by
  simp [extent, preorderAll_eq_flatMap]

theorem extent_reverse (nodes : List Node) : extent nodes.reverse = extent nodes := by
  simp [extent, preorderAll_eq_flatMap, List.length_flatMap, List.sum_reverse]

theorem extent_singleton (label : Label) (children : List Node) :
    extent [.mk label children] = extent children + 1 := by
  simp [extent, preorderAll, preorder]

/-- Takes the nodes that wait from the end, one at a time. A fault is put on record, and nothing
below it is looked at. Of the others, those that are marked as faulty leave their children to wait,
in reverse so that the first child is taken first. -/
def collectFaults (pending : Array Node) (found : Array Fault) : Array Fault :=
  match _ : pending.back? with
  | none => found
  | some (.mk label children) =>
    if label.isError then collectFaults pending.pop (found.push ⟨.unparsed, label.position⟩)
    else if label.isMissing then
      collectFaults pending.pop (found.push ⟨.missing label.kind, label.position⟩)
    else if label.hasError then collectFaults (pending.pop ++ children.reverse) found
    else collectFaults pending.pop found
termination_by extent pending.toList
decreasing_by
  all_goals
    obtain ⟨waiting, rfl⟩ := Array.back?_eq_some_iff.mp ‹_›
    simp only [Array.pop_push, Array.toList_push, Array.toList_appendList, extent_append,
      extent_reverse, extent_singleton]
    omega

/-- The topmost faults in preorder. Subtrees that are not marked as faulty are left out. -/
def faults (root : Node) : List Fault := (collectFaults #[root] #[]).toList

end Node

end TruthLint.Cst
