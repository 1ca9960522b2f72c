import TruthLint.Outline.Basic
import TruthLint.Proofs.Cst.Tree

/-! The outline of a node in terms of the outlines of its children. -/

namespace TruthLint

open Cst

namespace Outline

/-- The children of a node with their outlines. -/
def partsOf (node : Node) : Parts := node.children.map fun child => (child, ofNode child)

/-- What a node contributes is found from its own label and from what its children contribute, by no
more than one step. -/
theorem ofNode_eq (node : Node) (role : Role) :
    ofNode node role = step node (partsOf node) role := by
  cases node with
  | mk label children => rw [ofNode, ofNodes_eq_map]; rfl

/-- A role that is asked for contributes what the child in it does, or nothing if there is none. -/
theorem first_partsOf (node : Node) (field : Field) (role : Role) :
    (partsOf node).first field role =
      (node.child? field).toList.flatMap fun child => ofNode child role := by
  rw [Parts.first, partsOf, List.find?_map, Node.child?]
  cases h : node.children.find? ((Node.hasField field ·.1) ∘ fun child => (child, ofNode child))
  all_goals
    change node.children.find? (Node.hasField field) = _ at h
    simp [h]

/-- Children that are chosen contribute one after the other. -/
theorem each_partsOf (node : Node) (p : Node → Bool) (role : Role) :
    (partsOf node).each p role =
      (node.children.filter p).flatMap fun child => ofNode child role := by
  rw [Parts.each, partsOf, List.flatMap_map]
  induction node.children with
  | nil => rfl
  | cons child children ih =>
      rw [List.flatMap_cons, List.filter_cons, ih]
      by_cases h : p child = true
      · simp [h]
      · simp [h]

theorem ofNode_members (node : Node) :
    ofNode node .members = node.contents.flatMap fun child => ofNode child .item := by
  rw [ofNode_eq, step, each_partsOf, Node.contents]

/-- A declaration that stands for itself evaluates its values as initializers. In a condition it
evaluates them as conditions. -/
theorem ofNode_declaration {node : Node} (h : node.kind = .declaration) :
    ofNode node .item = declaration node (partsOf node) .initializer := by
  rw [ofNode_eq, step, item, h]

theorem ofNode_fieldDeclaration {node : Node} (h : node.kind = .fieldDeclaration) :
    ofNode node .item = fieldDeclaration node (partsOf node) := by
  rw [ofNode_eq, step, item, h]

/-- What is recorded in the function scope of a definition: its parameters and its body. -/
def functionContents (definition function : Node) : List Entry :=
  ((function.child? .parameters).map parameterEntries).getD [] ++
    (partsOf definition).first .body .members

/-- A definition with a function declarator. -/
theorem ofNode_functionDefinition {node function : Node} {indirect : Bool}
    (h : node.kind = .functionDefinition)
    (hFunction : (node.child? .declarator).bind (functionDeclarator? false) =
      some (function, indirect)) :
    ∃ name, ofNode node .item =
      [.definition ((function.child? .declarator).bind QualifiedName.ofNode?) name
        (.ofBase (baseType node) indirect) (line node) (functionContents node function)] := by
  rw [ofNode_eq, step, item, h]
  dsimp only
  rw [functionDefinition, hFunction]
  exact ⟨_, rfl⟩

/-- A definition in which no function is found is passed over, with its body. -/
theorem ofNode_definition_none {node : Node} (h : node.kind = .functionDefinition)
    (hNone : (node.child? .declarator).bind (functionDeclarator? false) = none) :
    ofNode node .item = [] := by
  rw [ofNode_eq, step, item, h]
  dsimp only
  rw [functionDefinition, hNone]

end Outline

end TruthLint
