import TruthLint.Outline.Declarator
import TruthLint.Proofs.Cst.Tree

/-! Declarators from the outside in. Each wrapper has one declarator inside, and what is declared is
reached through the wrappers around it. -/

namespace TruthLint

open Cst

/-- The declarator inside a pointer, a reference, an array, parentheses, attributes or a function
declarator. -/
def Cst.Node.wrapped? (node : Node) : Option Node :=
  match node.kind with
  | .pointerDeclarator | .arrayDeclarator | .functionDeclarator => node.child? .declarator
  | .referenceDeclarator | .parenthesizedDeclarator | .attributedDeclarator =>
    node.contents.head?
  | _ => none

theorem Cst.Node.mem_of_wrapped? {node inner : Node} (h : node.wrapped? = some inner) :
    inner ∈ node.children := by
  rw [wrapped?] at h
  split at h
  · exact mem_of_child? h
  · exact mem_of_child? h
  · exact mem_of_child? h
  · exact mem_of_mem_contents (List.mem_of_head? h)
  · exact mem_of_mem_contents (List.mem_of_head? h)
  · exact mem_of_mem_contents (List.mem_of_head? h)
  · cases h

/-- Going inwards from a declarator through wrappers of these kinds, the outermost first, one comes
to a node. -/
inductive Wraps : List Kind → Node → Node → Prop where
  | refl (node : Node) : Wraps [] node node
  | step {node inner target : Node} {kind : Kind} {kinds : List Kind} (isKind : node.kind = kind)
      (inside : node.wrapped? = some inner) (rest : Wraps kinds inner target) :
      Wraps (kind :: kinds) node target

namespace Declared

/-- What the declarator inside a wrapper introduces. -/
def inside (base : VariableType) (node : Node) : Declared :=
  (node.wrapped?.map (ofNode base)).getD .unnamed

/-- What a declarator introduces is found one wrapper at a time. The base type changes on the way
in, and what is introduced on the way out. -/
theorem ofNode_eq (base : VariableType) (node : Node) :
    ofNode base node = match node.kind with
      | .identifier | .fieldIdentifier => .var node.text base node.position
      | .pointerDeclarator => (inside .pointer node).behindPointer
      | .referenceDeclarator => (inside base node).behindPointer
      | .arrayDeclarator => inside .other node
      | .parenthesizedDeclarator | .attributedDeclarator => inside base node
      | .functionDeclarator =>
        match node.wrapped? with
        | some inner =>
          if inner.kind = .parenthesizedDeclarator then (ofNode .other inner).asPointer
          else .function inner false node.position.line
        | none => .unnamed
      | _ => .unnamed := by
  obtain ⟨label, children⟩ := node
  have hFirst (p : Node → Bool) (base : VariableType) : ofFirst p base children =
      ((children.find? p).map (ofNode base)).getD .unnamed := by
    rw [ofFirst_eq]
    cases children.find? p <;> rfl
  have hContents : (Node.mk label children).contents.head? = children.find? Node.isContent :=
    List.head?_filter
  rw [ofNode]
  simp only [Node.kind, Node.label, inside, Node.wrapped?]
  split
  next => simp [*, Node.text, Node.position, Node.label]
  next => simp [*, Node.text, Node.position, Node.label]
  next hKind => simp [hFirst, hKind, Node.child?, Node.children]
  next hKind => simp [hFirst, hKind, hContents]
  next hKind => simp [hFirst, hKind, Node.child?, Node.children]
  next hKind => simp [hFirst, hKind, hContents]
  next hKind => simp [hFirst, hKind, hContents]
  next hKind =>
    simp only [hFirst, hKind, Node.child?, Node.children]
    cases children.find? (Node.hasField .declarator) with
    | none => rfl
    | some inner => rfl
  next => simp [*]

end Declared

/-- A function declarator inside wrappers, with a flag that only ever gets set. -/
theorem functionDeclarator?_eq (indirect : Bool) (node : Node) :
    functionDeclarator? indirect node = match node.kind with
      | .functionDeclarator => some (node, indirect)
      | .pointerDeclarator | .referenceDeclarator =>
        node.wrapped?.bind (functionDeclarator? true)
      | .parenthesizedDeclarator | .attributedDeclarator =>
        node.wrapped?.bind (functionDeclarator? indirect)
      | _ => none := by
  obtain ⟨label, children⟩ := node
  have hContents : (Node.mk label children).contents.head? = children.find? Node.isContent :=
    List.head?_filter
  rw [functionDeclarator?]
  simp only [Node.kind, Node.label, Node.wrapped?, firstFunctionDeclarator?_eq]
  split
  next => simp [*]
  next hKind => simp [hKind, Node.child?, Node.children]
  next hKind => simp [hKind, hContents]
  next hKind => simp [hKind, hContents]
  next hKind => simp [hKind, hContents]
  next => simp [*]

end TruthLint
