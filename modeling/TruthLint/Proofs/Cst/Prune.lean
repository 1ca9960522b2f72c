import TruthLint.Outline.Declarator
import TruthLint.Proofs.Cst.Tree
import TruthLint.Proofs.Expr.Operands

/-! Trees whose syntax errors were emptied. What is below an ERROR node is not looked at where
expressions and declarators are read, so that they read the same without it. -/

namespace TruthLint

open Cst

namespace Cst.Node

mutual

/-- The tree without what is below its ERROR nodes, which themselves stay. -/
def prune : Node → Node
  | .mk label children => .mk label (if label.kind = .error then [] else pruneAll children)

def pruneAll : List Node → List Node
  | [] => []
  | node :: nodes => prune node :: pruneAll nodes

end

/-- ERROR nodes stand beside the parts of their parents and have no role of their own. -/
def ErrorsUnnamed (node : Node) : Prop :=
  ∀ inner ∈ node.preorder, inner.kind = .error → inner.label.field = none

/-- If no error in a tree stands in a named role, none does in any part of the tree. -/
theorem ErrorsUnnamed.of_mem {node inner : Node} (h : node.ErrorsUnnamed)
    (hInner : inner ∈ node.preorder) : inner.ErrorsUnnamed :=
  fun e hError => h e (preorder_subset hInner hError)

theorem ErrorsUnnamed.of_child {node child : Node} (h : node.ErrorsUnnamed)
    (hChild : child ∈ node.children) : child.ErrorsUnnamed :=
  h.of_mem (mem_preorder_of_child hChild (mem_preorder_self child))

/-- So the node in a role is never an error. -/
theorem ErrorsUnnamed.kind_of_child? {node child : Node} {field : Field} (h : node.ErrorsUnnamed)
    (hChild : node.child? field = some child) : child.kind ≠ .error := by
  intro hError
  have hField := h child
    (mem_preorder_of_child (mem_of_child? hChild) (mem_preorder_self child)) hError
  rw [hasField_of_child? hChild] at hField
  cases hField

theorem pruneAll_eq_map (nodes : List Node) : pruneAll nodes = nodes.map prune := by
  induction nodes with
  | nil => rfl
  | cons node nodes ih => rw [pruneAll, ih, List.map_cons]

@[simp] theorem label_prune (node : Node) : node.prune.label = node.label := by
  cases node
  rw [prune]
  rfl

@[simp] theorem kind_prune (node : Node) : node.prune.kind = node.kind :=
  congrArg Label.kind node.label_prune

@[simp] theorem text_prune (node : Node) : node.prune.text = node.text :=
  congrArg Label.text node.label_prune

@[simp] theorem position_prune (node : Node) : node.prune.position = node.position :=
  congrArg Label.position node.label_prune

@[simp] theorem isContent_prune (node : Node) : node.prune.isContent = node.isContent := by
  simp only [isContent, label_prune, kind_prune]

@[simp] theorem hasField_prune (field : Field) (node : Node) :
    node.prune.hasField field = node.hasField field := by
  simp only [hasField, label_prune]

theorem children_prune_error {node : Node} (h : node.kind = .error) : node.prune.children = [] := by
  obtain ⟨label, children⟩ := node
  rw [prune, if_pos (by exact h)]
  rfl

/-- Below any other node each child is pruned for itself, and none is lost. -/
theorem children_prune {node : Node} (h : node.kind ≠ .error) :
    node.prune.children = node.children.map prune := by
  obtain ⟨label, children⟩ := node
  rw [prune, if_neg (by exact h), pruneAll_eq_map]
  rfl

section

variable {node : Node}

/-- A search among the children finds the same one if it goes by what pruning keeps. -/
theorem find?_children_prune (h : node.kind ≠ .error) {p : Node → Bool}
    (hp : ∀ child : Node, p child.prune = p child) :
    node.prune.children.find? p = (node.children.find? p).map prune := by
  rw [children_prune h, List.find?_map, show p ∘ prune = p from funext hp]

theorem filter_children_prune (h : node.kind ≠ .error) {p : Node → Bool}
    (hp : ∀ child : Node, p child.prune = p child) :
    node.prune.children.filter p = (node.children.filter p).map prune := by
  rw [children_prune h, List.filter_map, show p ∘ prune = p from funext hp]

theorem child?_prune (h : node.kind ≠ .error) (field : Field) :
    node.prune.child? field = (node.child? field).map prune :=
  find?_children_prune h (hasField_prune field)

/-- An error is content as before, so that the contents correspond one by one. -/
theorem contents_prune (h : node.kind ≠ .error) : node.prune.contents = node.contents.map prune :=
  filter_children_prune h isContent_prune

/-- The first child of a kind is the pruned one, since kinds are kept. -/
theorem childOfKind?_prune (h : node.kind ≠ .error) (kind : Kind) :
    node.prune.childOfKind? kind = (node.childOfKind? kind).map prune :=
  find?_children_prune h fun child => by rw [kind_prune]

/-- What is read off the label of a child stays the same. -/
theorem map_child?_prune (h : node.kind ≠ .error) {α : Type} (f : Label → α) (field : Field) :
    (node.prune.child? field).map (fun child => f child.label) =
      (node.child? field).map fun child => f child.label := by
  rw [child?_prune h, Option.map_map]
  simp only [Function.comp_def, label_prune]

end

end Cst.Node

namespace Expr

open Node (ErrorsUnnamed)

variable {sub : Node → Expr} {node : Node}

/-- An expression that is not looked into needs the label of its node only. -/
theorem unread_prune (node : Node) : unread node.prune = unread node := by
  rw [unread, Node.position_prune, unread]

/-- A part of an expression is lowered from the pruned child. -/
theorem part_prune (h : node.kind ≠ .error) (field : Field) :
    part sub node.prune field = part (fun operand => sub operand.prune) node field := by
  rw [part, part, Node.child?_prune h, unread_prune]
  cases node.child? field <;> rfl

/-- The token of an operator is a label and stays. -/
theorem operatorToken_prune (h : node.kind ≠ .error) :
    operatorToken node.prune = operatorToken node :=
  congrArg (Option.getD · "") (Node.map_child?_prune h Label.text .operator)

theorem operatorPosition_prune (h : node.kind ≠ .error) :
    operatorPosition node.prune = operatorPosition node := by
  have hOperator := Node.map_child?_prune h Label.position .operator
  unfold operatorPosition
  rw [Node.position_prune]
  exact congrArg (Option.getD · node.position) hOperator

/-- The name of a member is read from the text of a node, which pruning keeps. -/
theorem memberName_prune (h : node.kind ≠ .error) : memberName node.prune = memberName node :=
  congrArg (Option.getD · "") (Node.map_child?_prune h Label.text .member)

/-- An increment is told from a decrement by the text of its operator. -/
theorem updateOp_prune (h : node.kind ≠ .error) : updateOp node.prune = updateOp node := by
  have hStart := Node.map_child?_prune h Label.start
  simp only [updateOp, operatorToken_prune h, hStart]

/-- A call is lowered as before if its function and its arguments are. -/
theorem ofCall_prune {function : Node} (arguments : List Expr) :
    ofCall sub node.prune function.prune arguments =
      ofCall (fun operand => sub operand.prune) node function arguments := by
  have hCast (h : function.kind ≠ .error) :
      (function.prune.child? .arguments).any isBoolArgument =
        (function.child? .arguments).any isBoolArgument := by
    rw [Node.child?_prune h]
    cases function.child? .arguments with
    | none => rfl
    | some arguments =>
        simp only [Option.map_some, Option.any_some, isBoolArgument, Node.text_prune]
  have hName (h : function.kind ≠ .error) := Node.map_child?_prune h Label.text .name
  unfold ofCall
  simp only [Node.kind_prune, Node.text_prune, Node.position_prune]
  cases hKind : function.kind
  case fieldExpression =>
    have hNotError : function.kind ≠ .error := by simp [hKind]
    simp only [memberName_prune hNotError, part_prune hNotError]
  case templateFunction =>
    have hNotError : function.kind ≠ .error := by simp [hKind]
    have hText : ((function.prune.child? .name).map Node.text).getD "" =
        ((function.child? .name).map Node.text).getD "" :=
      congrArg (Option.getD · "") (hName hNotError)
    simp only [hText, hCast hNotError]
  all_goals rfl

/-- A node that is no error reads the same, if its operands are read without their errors. -/
theorem ofNodeWith_prune (h : node.kind ≠ .error)
    (hArguments : ∀ {arguments : Node}, node.child? .arguments = some arguments →
      arguments.kind ≠ .error) :
    ofNodeWith sub node.prune = ofNodeWith (fun operand => sub operand.prune) node := by
  have contents : node.prune.contents.map sub =
      node.contents.map fun operand => sub operand.prune := by
    rw [Node.contents_prune h, List.map_map]
    rfl
  unfold ofNodeWith
  simp only [Node.kind_prune, Node.position_prune, Node.text_prune, operatorToken_prune h,
    operatorPosition_prune h, updateOp_prune h, memberName_prune h, part_prune h, contents,
    unread_prune]
  cases hKind : node.kind
  case parenthesizedExpression =>
    rw [Node.contents_prune h]
    cases node.contents <;> rfl
  case unaryExpression =>
    simp only [ofUnary, operatorToken_prune h, part_prune h, Node.position_prune]
  case callExpression =>
    have hContents : ((node.prune.child? .arguments).map Node.contents).getD [] =
        (((node.child? .arguments).map Node.contents).getD []).map Node.prune := by
      rw [Node.child?_prune h]
      cases hChild : node.child? .arguments with
      | none => rfl
      | some arguments => exact Node.contents_prune (hArguments hChild)
    dsimp only
    rw [hContents, Node.child?_prune h, List.map_map]
    cases node.child? .function with
    | none => rfl
    | some function => exact ofCall_prune _
  case castExpression =>
    dsimp only
    rw [Node.child?_prune h, Option.any_map]
    simp only [Node.text_prune]
  case conditionalExpression =>
    dsimp only
    rw [Node.child?_prune h]
    cases node.child? .consequence <;> rfl
  all_goals rfl

/-- An error is an expression that is not looked into, so that nothing is lost with its children. -/
theorem ofNodeWith_error (h : node.kind = .error) : ofNodeWith sub node = unread node := by
  rw [ofNodeWith, h]

/-- Expressions read the same without what is below the errors in them. -/
theorem ofNodeWithin_prune (room : Nat) (h : node.ErrorsUnnamed) :
    ofNodeWithin room node.prune = ofNodeWithin room node := by
  induction room generalizing node with
  | zero => exact unread_prune node
  | succ room ih =>
      rw [ofNodeWithin, ofNodeWithin]
      by_cases hKind : node.kind = .error
      · rw [ofNodeWith_error hKind, ofNodeWith_error (node.kind_prune.trans hKind), unread_prune]
      · rw [ofNodeWith_prune hKind fun hChild => h.kind_of_child? hChild]
        exact ofNodeWith_congr fun operand hOperand =>
          ih (h.of_mem (mem_preorder_of_operandNodes hOperand))

end Expr

namespace Declared

/-- The same declaration, with the node of a function name in the emptied tree. -/
def prune : Declared → Declared
  | function name indirect line => function name.prune indirect line
  | declared => declared

/-- The name of a function is read from a kind and a text, and both are kept. -/
theorem ofNode?_prune (node : Node) :
    QualifiedName.ofNode? node.prune = QualifiedName.ofNode? node := by
  simp only [QualifiedName.ofNode?, Node.kind_prune, Node.text_prune]

@[simp] theorem entries_prune (base : VariableType) (declared : Declared) :
    declared.prune.entries base = declared.entries base := by
  cases declared with
  | function name indirect line => simp only [prune, entries, ofNode?_prune]
  | _ => rfl

@[simp] theorem parameterEntries_prune (declared : Declared) :
    declared.prune.parameterEntries = declared.parameterEntries := by
  cases declared with
  | function name indirect line => simp only [prune, parameterEntries, Node.text_prune]
  | _ => rfl

@[simp] theorem target?_prune (declared : Declared) :
    declared.prune.target? = declared.target? := by
  cases declared <;> rfl

/-- To note a pointer and to prune the name behind it may be done in either order. -/
theorem behindPointer_prune (declared : Declared) :
    declared.prune.behindPointer = declared.behindPointer.prune := by
  cases declared <;> rfl

theorem asPointer_prune (declared : Declared) :
    declared.prune.asPointer = declared.asPointer.prune := by
  cases declared <;> rfl

/-- A declarator declares the same without what is below the errors in it. -/
theorem ofNode_prune (base : VariableType) (node : Node) :
    ofNode base node.prune = (ofNode base node).prune := by
  induction node using Node.children_induction generalizing base with
  | h node ih =>
      obtain ⟨label, children⟩ := node
      by_cases hKind : label.kind = .error
      · rw [Node.prune, if_pos hKind, ofNode, ofNode, hKind]
        rfl
      have hFirst {p : Node → Bool} (hp : ∀ child : Node, p child.prune = p child)
          (base : VariableType) :
          ofFirst p base (children.map Node.prune) = (ofFirst p base children).prune := by
        rw [ofFirst_eq, ofFirst_eq, List.find?_map, show p ∘ Node.prune = p from funext hp]
        cases hFound : children.find? p with
        | none => rfl
        | some child => exact ih child (List.mem_of_find?_eq_some hFound) base
      have hField := hFirst (Node.hasField_prune .declarator)
      have hContent := hFirst Node.isContent_prune
      rw [Node.prune, if_neg hKind, Node.pruneAll_eq_map, ofNode, ofNode]
      cases label.kind
      case pointerDeclarator => simp only [hField, behindPointer_prune]
      case referenceDeclarator => simp only [hContent, behindPointer_prune]
      case arrayDeclarator => exact hField .other
      case parenthesizedDeclarator | attributedDeclarator => exact hContent base
      case functionDeclarator =>
        dsimp only
        rw [List.find?_map,
          show Node.hasField .declarator ∘ Node.prune = _ from funext (Node.hasField_prune _)]
        cases children.find? (Node.hasField .declarator) with
        | none => rfl
        | some inner =>
            simp only [Option.map_some, Node.kind_prune, hField, asPointer_prune]
            split <;> rfl
      all_goals rfl

end Declared

section

variable {node : Node}

/-- The base type is read from the text and the kind of a type node. -/
theorem baseType_prune (h : node.kind ≠ .error) : baseType node.prune = baseType node := by
  unfold baseType
  rw [Node.child?_prune h]
  cases node.child? .type with
  | none => rfl
  | some type =>
      simp only [Option.map_some, VariableType.ofTypeNode, Node.text_prune, Node.kind_prune]

/-- A list of parameters declares the same without what is below the errors in it. -/
theorem parameterEntries_prune (h : node.kind ≠ .error) :
    parameterEntries node.prune = parameterEntries node := by
  unfold parameterEntries
  rw [Node.contents_prune h, List.flatMap_map]
  refine List.flatMap_congr fun parameter _ => ?_
  rw [Node.kind_prune]
  by_cases hKind : parameter.kind = .error
  · rw [hKind]
  · rw [Node.child?_prune hKind, baseType_prune hKind]
    cases parameter.child? .declarator with
    | none => rfl
    | some declarator =>
        have hDeclared (base : VariableType) :
            (Declared.ofNode base declarator.prune).parameterEntries =
              (Declared.ofNode base declarator).parameterEntries := by
          rw [Declared.ofNode_prune, Declared.parameterEntries_prune]
        cases parameter.kind
        case parameterDeclaration | optionalParameterDeclaration => exact hDeclared _
        all_goals rfl

/-- The function declarator that is found inside wrappers is the pruned one. -/
theorem functionDeclarator?_prune (indirect : Bool) (node : Node) :
    functionDeclarator? indirect node.prune =
      (functionDeclarator? indirect node).map fun found => (found.1.prune, found.2) := by
  induction node using Node.children_induction generalizing indirect with
  | h node ih =>
      obtain ⟨label, children⟩ := node
      by_cases hKind : label.kind = .error
      · rw [Node.prune, if_pos hKind, functionDeclarator?, functionDeclarator?, hKind]
        rfl
      have hFirst {p : Node → Bool} (hp : ∀ child : Node, p child.prune = p child)
          (indirect : Bool) :
          firstFunctionDeclarator? p indirect (children.map Node.prune) =
            (firstFunctionDeclarator? p indirect children).map
              fun found => (found.1.prune, found.2) := by
        rw [firstFunctionDeclarator?_eq, firstFunctionDeclarator?_eq, List.find?_map,
          show p ∘ Node.prune = p from funext hp]
        cases hFound : children.find? p with
        | none => rfl
        | some child => exact ih child (List.mem_of_find?_eq_some hFound) indirect
      have hSelf : (Node.mk label children).prune = .mk label (children.map Node.prune) := by
        rw [Node.prune, if_neg hKind, Node.pruneAll_eq_map]
      rw [hSelf, functionDeclarator?, functionDeclarator?]
      cases label.kind
      case pointerDeclarator => exact hFirst (Node.hasField_prune _) true
      case referenceDeclarator => exact hFirst Node.isContent_prune true
      case parenthesizedDeclarator | attributedDeclarator =>
        exact hFirst Node.isContent_prune indirect
      case functionDeclarator => rw [← hSelf, Option.map_some]
      all_goals rfl

/-- The function declarator that is found is a node of the declarator. -/
theorem mem_of_functionDeclarator? {indirect : Bool} {found : Node × Bool}
    (h : functionDeclarator? indirect node = some found) :
    found.1 ∈ node.preorder ∧ found.1.kind = .functionDeclarator := by
  induction node using Node.children_induction generalizing indirect with
  | h node ih =>
      obtain ⟨label, children⟩ := node
      have hFirst {p : Node → Bool} {indirect : Bool}
          (h : firstFunctionDeclarator? p indirect children = some found) :
          found.1 ∈ (Node.mk label children).preorder ∧ found.1.kind = .functionDeclarator := by
        rw [firstFunctionDeclarator?_eq, Option.bind_eq_some_iff] at h
        obtain ⟨child, hChild, hFound⟩ := h
        have hMem := List.mem_of_find?_eq_some hChild
        exact (ih child hMem hFound).imp_left (Node.mem_preorder_of_child hMem)
      rw [functionDeclarator?] at h
      split at h
      case h_1 hKind =>
        obtain rfl := Option.some.inj h
        exact ⟨Node.mem_preorder_self _, hKind⟩
      case h_6 => cases h
      all_goals exact hFirst h

end

end TruthLint
