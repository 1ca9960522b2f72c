import Mathlib.Data.List.Forall2
import TruthLint.Expr.Lowering
import TruthLint.Proofs.Cst.Tree
import TruthLint.Proofs.Expr.Alike

/-! The nodes that the expression of a node is made of. Reading a node reads each of them once, and
nothing else of the tree below it. -/

namespace TruthLint.Expr

open Cst

/-- The children in some roles, as far as there are any. -/
def childrenIn (node : Node) (fields : List Field) : List Node :=
  fields.flatMap fun field => (node.child? field).toList

/-- What is read of the function of a call. -/
def calleeNodes (function : Node) : List Node :=
  match function.kind with
  | .identifier | .qualifiedIdentifier | .primitiveType | .sizedTypeSpecifier
  | .templateFunction => []
  | .fieldExpression => childrenIn function [.argument]
  | _ => [function]

/-- The nodes whose expressions the expression of a node is made of, in order. -/
def operandNodes (node : Node) : List Node :=
  match node.kind with
  | .parenthesizedExpression => node.contents.head?.toList
  | .binaryExpression | .assignmentExpression => childrenIn node [.left, .right]
  | .unaryExpression | .pointerExpression | .updateExpression | .fieldExpression =>
    childrenIn node [.argument]
  | .callExpression =>
    ((node.child? .function).map calleeNodes).getD [] ++
      ((node.child? .arguments).map Node.contents).getD []
  | .castExpression => childrenIn node [.value]
  | .conditionalExpression => childrenIn node [.condition, .consequence, .alternative]
  | .numberLiteral | .trueLiteral | .falseLiteral | .stringLiteral | .rawStringLiteral
  | .concatenatedString | .charLiteral | .null | .nullptr | .userDefinedLiteral | .identifier
  | .lambdaExpression | .error => []
  | _ => node.contents

/-- Operands in certain roles lie in the node. -/
theorem mem_preorder_of_childrenIn {node operand : Node} {fields : List Field}
    (h : operand ∈ childrenIn node fields) : operand ∈ node.preorder := by
  obtain ⟨field, -, hChild⟩ := List.mem_flatMap.mp h
  exact Node.mem_preorder_of_child (Node.mem_of_child? (Option.mem_toList.mp hChild))
    (Node.mem_preorder_self operand)

theorem mem_preorder_of_contents {node operand : Node} (h : operand ∈ node.contents) :
    operand ∈ node.preorder :=
  Node.mem_preorder_of_child (Node.mem_of_mem_contents h) (Node.mem_preorder_self operand)

theorem mem_preorder_of_calleeNodes {node operand : Node} (h : operand ∈ calleeNodes node) :
    operand ∈ node.preorder := by
  unfold calleeNodes at h
  split at h
  case h_6 => exact mem_preorder_of_childrenIn h
  case h_7 => exact List.mem_singleton.mp h ▸ node.mem_preorder_self
  all_goals exact absurd h List.not_mem_nil

/-- Operands are nodes of the tree below the node. -/
theorem mem_preorder_of_operandNodes {node operand : Node} (h : operand ∈ operandNodes node) :
    operand ∈ node.preorder := by
  unfold operandNodes at h
  cases hKind : node.kind
  all_goals simp only [hKind] at h
  case parenthesizedExpression =>
    exact mem_preorder_of_contents (List.mem_of_head? (Option.mem_toList.mp h))
  case callExpression =>
    rcases List.mem_append.mp h with hCallee | hArgument
    · cases hChild : node.child? .function with
      | none => simp [hChild] at hCallee
      | some function =>
          rw [hChild] at hCallee
          exact Node.mem_preorder_of_child (Node.mem_of_child? hChild)
            (mem_preorder_of_calleeNodes hCallee)
    · cases hChild : node.child? .arguments with
      | none => simp [hChild] at hArgument
      | some arguments =>
          rw [hChild] at hArgument
          exact Node.mem_preorder_of_child (Node.mem_of_child? hChild)
            (mem_preorder_of_contents hArgument)
  all_goals first
    | exact mem_preorder_of_childrenIn h
    | exact mem_preorder_of_contents h
    | exact absurd h List.not_mem_nil

variable {sub sub' : Node → Expr}

/-- What is collected from a part that may be missing is collected from the child in its role. -/
theorem flatMap_part {α : Type} (sub : Node → Expr) (m : Expr → List α)
    (hUnread : ∀ node, m (unread node) = []) (node : Node) (field : Field) :
    m (part sub node field) = (node.child? field).toList.flatMap fun child => m (sub child) := by
  unfold part
  cases node.child? field with
  | none => exact hUnread node
  | some child => simp

/-- A conversion has its operands as its parts, whether it is one to a boolean or not. -/
theorem children_conversion (pos : Position) (toBool : Bool) (operands : List Expr) :
    (conversion pos toBool operands).children = operands := by
  unfold conversion
  split <;> rfl

/-- The direct parts of a call are the expressions of what is read of the function and of the
arguments. -/
theorem flatMap_children_ofCall {α : Type} (m : Expr → List α)
    (hUnread : ∀ node, m (unread node) = []) (node function : Node) (arguments : List Node) :
    (ofCall sub node function (arguments.map sub)).children.flatMap m =
      (calleeNodes function ++ arguments).flatMap fun operand => m (sub operand) := by
  have part := flatMap_part sub m hUnread
  have hArguments : (arguments.map sub).flatMap m = arguments.flatMap fun e => m (sub e) :=
    List.flatMap_map _ _ _
  rw [List.flatMap_append]
  unfold ofCall calleeNodes
  cases hKind : function.kind
  case fieldExpression =>
    simp only [children, childrenIn, List.flatMap_cons, part, hArguments, List.flatMap_nil,
      List.append_nil]
  case templateFunction =>
    dsimp only
    split
    · rw [children_conversion, hArguments]
      rfl
    · exact hArguments
  case primitiveType | sizedTypeSpecifier =>
    dsimp only
    rw [children_conversion, hArguments]
    rfl
  case identifier | qualifiedIdentifier => exact hArguments
  all_goals simp only [children, List.flatMap_cons, hArguments, List.flatMap_nil, List.append_nil]

/-- The direct parts of the expression of a node are the expressions of its operands, each once and
in order, and parts for what is missing. Parentheses have no expression of their own. -/
theorem flatMap_children_ofNodeWith {α : Type} (m : Expr → List α)
    (hUnread : ∀ node, m (unread node) = []) {node : Node}
    (hKind : node.kind ≠ .parenthesizedExpression) :
    (ofNodeWith sub node).children.flatMap m =
      (operandNodes node).flatMap fun operand => m (sub operand) := by
  have part := flatMap_part sub m hUnread
  have contents (nodes : List Node) :
      (nodes.map sub).flatMap m = nodes.flatMap fun e => m (sub e) :=
      List.flatMap_map _ _ _
  unfold ofNodeWith operandNodes
  cases hNode : node.kind
  case parenthesizedExpression => exact absurd hNode hKind
  case callExpression =>
    dsimp only
    cases node.child? .function with
    | none => simp only [children, contents, Option.map_none, Option.getD_none, List.nil_append]
    | some function => exact flatMap_children_ofCall m hUnread node function _
  case unaryExpression =>
    have hOperand : (ofUnary sub node).children = [Expr.part sub node .argument] := by
      unfold ofUnary
      dsimp only
      split <;> rfl
    simp only [hOperand, childrenIn, List.flatMap_cons, part, List.flatMap_nil, List.append_nil]
  case conditionalExpression =>
    dsimp only
    cases hConsequence : node.child? .consequence with
    | none =>
        simp only [children, childrenIn, List.flatMap_cons, part, hConsequence, List.flatMap_nil,
          List.append_nil, Option.toList_none, List.nil_append, List.flatMap_append]
    | some consequence =>
        simp only [children, childrenIn, List.flatMap_cons, part, hConsequence, List.flatMap_nil,
          List.append_nil, Option.toList_some, List.singleton_append, List.flatMap_append]
  case lambdaExpression | error => rfl
  all_goals simp only [children, childrenIn, List.flatMap_cons, part, contents, List.flatMap_nil,
      List.append_nil, List.flatMap_append]

section

variable {R : Expr → Expr → Prop}

theorem forall₂_map {nodes : List Node} (h : ∀ node ∈ nodes, R (sub node) (sub' node)) :
    List.Forall₂ R (nodes.map sub) (nodes.map sub') := by
  rw [List.forall₂_map_left_iff, List.forall₂_map_right_iff]
  exact List.forall₂_same.mpr h

/-- Related operands are as many, so that they make a conversion in the same cases. -/
theorem conversion_related (keep : ∀ e e', Alike R e e' → R e e') (pos : Position)
    (toBool : Bool) {operands operands' : List Expr} (h : List.Forall₂ R operands operands') :
    R (conversion pos toBool operands) (conversion pos toBool operands') := by
  cases h with
  | nil => exact keep _ _ (.other _ .nil)
  | cons first rest =>
      cases rest with
      | nil => exact keep _ _ (.cast _ _ first)
      | cons second rest => exact keep _ _ (.other _ (.cons first (.cons second rest)))

/-- A node that is not looked into is related to itself by whatever relation is kept by nodes with
related parts. -/
theorem unread_related (keep : ∀ e e', Alike R e e' → R e e') (node : Node) :
    R (unread node) (unread node) :=
  keep _ _ (.other _ .nil)

/-- A part of an expression is related to its other version if the child that it is read from is. -/
theorem part_related (keep : ∀ e e', Alike R e e' → R e e') {node : Node} {fields : List Field}
    (h : ∀ child ∈ childrenIn node fields, R (sub child) (sub' child)) (field : Field)
    (hField : field ∈ fields) : R (part sub node field) (part sub' node field) := by
  unfold part
  cases hChild : node.child? field with
  | none => exact unread_related keep node
  | some child =>
      exact h child (List.mem_flatMap.mpr ⟨field, hField, Option.mem_toList.mpr hChild⟩)

/-- A call is related to its other version if what it calls and its arguments are. -/
theorem ofCall_related (keep : ∀ e e', Alike R e e' → R e e') {node function : Node}
    {arguments : List Node}
    (h : ∀ operand ∈ calleeNodes function ++ arguments, R (sub operand) (sub' operand)) :
    R (ofCall sub node function (arguments.map sub))
      (ofCall sub' node function (arguments.map sub')) := by
  obtain ⟨hCallee, hArguments⟩ := List.forall_mem_append.mp h
  have parts := forall₂_map hArguments
  unfold calleeNodes at hCallee
  unfold ofCall
  cases hKind : function.kind
  all_goals simp only [hKind] at hCallee
  case fieldExpression =>
    exact keep _ _ (.call _ _ (.cons (part_related keep hCallee _ List.mem_cons_self) parts))
  case primitiveType | sizedTypeSpecifier => exact conversion_related keep _ _ parts
  case templateFunction =>
    dsimp only
    split
    · exact conversion_related keep _ _ parts
    · exact keep _ _ (.call _ _ parts)
  case identifier | qualifiedIdentifier => exact keep _ _ (.call _ _ parts)
  all_goals exact keep _ _ (.call _ _ (.cons (hCallee function List.mem_cons_self) parts))

/-- A relation that holds of the operands, however they are read, holds of what is made of them,
whatever the kind of the node. Parentheses stand for the expression in them. -/
theorem ofNodeWith_related (keep : ∀ e e', Alike R e e' → R e e') {node : Node}
    (h : ∀ operand ∈ operandNodes node, R (sub operand) (sub' operand)) :
    R (ofNodeWith sub node) (ofNodeWith sub' node) := by
  unfold operandNodes at h
  unfold ofNodeWith
  cases hNode : node.kind
  all_goals simp only [hNode] at h
  case parenthesizedExpression =>
    cases hContents : node.contents with
    | nil => exact unread_related keep node
    | cons inner rest => exact h inner (by simp [hContents])
  case binaryExpression =>
    exact keep _ _ (.binary _ _ (part_related keep h _ (by simp)) (part_related keep h _ (by simp)))
  case unaryExpression =>
    have operand := part_related keep h _ List.mem_cons_self
    unfold ofUnary
    dsimp only
    split
    case h_6 => exact keep _ _ (.other _ (.cons operand .nil))
    all_goals exact keep _ _ (.unary _ _ operand)
  case pointerExpression | updateExpression =>
    exact keep _ _ (.unary _ _ (part_related keep h _ List.mem_cons_self))
  case assignmentExpression =>
    exact keep _ _ (.assign _ _ (part_related keep h _ (by simp)) (part_related keep h _ (by simp)))
  case callExpression =>
    dsimp only
    cases hFunction : node.child? .function with
    | none =>
        rw [hFunction] at h
        exact keep _ _ (.other _ (forall₂_map h))
    | some function =>
        rw [hFunction] at h
        exact ofCall_related keep h
  case fieldExpression => exact keep _ _ (.member _ _ (part_related keep h _ List.mem_cons_self))
  case castExpression => exact keep _ _ (.cast _ _ (part_related keep h _ List.mem_cons_self))
  case conditionalExpression =>
    have condition := part_related keep h .condition (by simp)
    have alternative := part_related keep h .alternative (by simp)
    dsimp only
    cases hConsequence : node.child? .consequence with
    | none => exact keep _ _ (.shortConditional _ condition alternative)
    | some consequence =>
        refine keep _ _ (.conditional _ condition (h consequence ?_) alternative)
        simp [childrenIn, hConsequence]
  case identifier => exact keep _ _ (.var _ _)
  case lambdaExpression | error => exact unread_related keep node
  case numberLiteral | trueLiteral | falseLiteral | stringLiteral | rawStringLiteral
      | concatenatedString | charLiteral | null | nullptr | userDefinedLiteral =>
    exact keep _ _ (.literal _ _)
  all_goals exact keep _ _ (.other _ (forall₂_map h))

/-- The expression of a node depends only on how its operands are read. -/
theorem ofNodeWith_congr {node : Node}
    (h : ∀ operand ∈ operandNodes node, sub operand = sub' operand) :
    ofNodeWith sub node = ofNodeWith sub' node := by
  refine ofNodeWith_related (fun e e' hAlike => ?_) h
  cases hAlike with
  | literal | var => rfl
  | call _ _ parts | other _ parts =>
      rw [List.forall₂_eq_eq_eq] at parts
      rw [parts]
  | unary _ _ part | cast _ _ part | member _ _ part => rw [part]
  | binary _ _ first second | assign _ _ first second | shortConditional _ first second =>
      rw [first, second]
  | conditional _ first second third => rw [first, second, third]

end

end TruthLint.Expr
