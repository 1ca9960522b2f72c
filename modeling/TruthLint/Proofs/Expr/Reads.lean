import TruthLint.Proofs.Expr.Operands

/-! The nodes that are read for an expression. Each is read once, lambdas are not entered, and
operators, steps and calls stand where the nodes that they were read from say. -/

namespace TruthLint

open Cst

namespace Cst.Node

/-- The arguments of calls stand in a list of their own, as the grammar has it, and are never a
lambda themselves. Otherwise the body of the lambda would be read as the arguments as well. -/
def ArgumentsListed (node : Node) : Prop :=
  ∀ call ∈ node.preorder, call.kind = .callExpression →
    ∀ arguments ∈ call.child? .arguments, arguments.kind ≠ .lambdaExpression

/-- If all arguments in a tree stand in lists of arguments, those in its parts do. -/
theorem ArgumentsListed.of_mem {node inner : Node} (h : node.ArgumentsListed)
    (hInner : inner ∈ node.preorder) : inner.ArgumentsListed :=
  fun call hCall => h call (preorder_subset hInner hCall)

end Cst.Node

namespace UnaryOp

/-- Increments and decrements. -/
def isStep : UnaryOp → Bool
  | preIncrement | preDecrement | postIncrement | postDecrement => true
  | _ => false

end UnaryOp

namespace Expr

/-- The nodes that are read when a node is read with some room, one for each time: the node itself,
and then its operands, on which alone its expression depends and which are its direct parts. -/
def reads : (room : Nat) → Node → List Node
  | 0, node => [node]
  | room + 1, node => node :: (operandNodes node).flatMap (reads room)

mutual

/-- The expression and all that it is made of. -/
def preorder : Expr → List Expr
  | .literal pos value => [.literal pos value]
  | .var pos name => [.var pos name]
  | .call pos callee operands => .call pos callee operands :: preorderAll operands
  | .unary pos op operand => .unary pos op operand :: preorder operand
  | .binary pos op left right => .binary pos op left right :: (preorder left ++ preorder right)
  | .assign pos compound target value =>
    .assign pos compound target value :: (preorder target ++ preorder value)
  | .cast pos toBool operand => .cast pos toBool operand :: preorder operand
  | .member pos object name => .member pos object name :: preorder object
  | .conditional pos condition consequence alternative =>
    .conditional pos condition consequence alternative ::
      (preorder condition ++ (preorder consequence ++ preorder alternative))
  | .shortConditional pos condition alternative =>
    .shortConditional pos condition alternative :: (preorder condition ++ preorder alternative)
  | .other pos parts => .other pos parts :: preorderAll parts

def preorderAll : List Expr → List Expr
  | [] => []
  | e :: es => preorder e ++ preorderAll es

end

/-- An expression comes before its parts and what is in them. -/
theorem preorder_eq (e : Expr) : e.preorder = e :: e.children.flatMap preorder := by
  have hAll (es : List Expr) : preorderAll es = es.flatMap preorder := by
    induction es with
    | nil => rfl
    | cons e es ih =>
        rw [preorderAll, ih]
        rfl
  cases e with
  | literal | var => rfl
  | call | other => rw [preorder, hAll]; rfl
  | _ => simp [preorder, children]

section

variable {node : Node}

/-- Of the children in certain roles, those are read that are the first in their role. -/
theorem childrenIn_sublist (node : Node) (fields : List Field) :
    (childrenIn node fields).Sublist (node.inRoles fields) :=
  List.Sublist.flatMap_right fields fun field _ => node.child?_sublist field

/-- A node is not read in two roles, as long as none is listed twice. -/
theorem childrenIn_subperm (node : Node) {fields : List Field} (h : fields.Nodup) :
    (childrenIn node fields).Subperm node.children :=
  (childrenIn_sublist node fields).subperm.trans (node.inRoles_subperm h)

/-- What is on the surface of operands is on the surface of the node, each operand counted once. -/
theorem surface_childrenIn (hKind : node.kind ≠ .lambdaExpression) {fields : List Field}
    (h : fields.Nodup) : ((childrenIn node fields).flatMap Node.surface).Subperm node.surface := by
  rw [Node.surface_eq hKind]
  exact ((childrenIn_subperm node h).flatMap _).trans (.cons_right _ (.refl _))

theorem surface_contents (hKind : node.kind ≠ .lambdaExpression) :
    (node.contents.flatMap Node.surface).Subperm node.surface := by
  rw [Node.surface_eq hKind]
  exact (List.filter_sublist.flatMap _).subperm.trans (.cons_right _ (.refl _))

/-- What is read of a function that is called lies on its surface. -/
theorem surface_calleeNodes (function : Node) :
    ((calleeNodes function).flatMap Node.surface).Subperm function.surface := by
  unfold calleeNodes
  split
  case h_6 hKind => exact surface_childrenIn (by rw [hKind]; decide) (by decide)
  case h_7 =>
    rw [List.flatMap_singleton]
  all_goals exact List.nil_subperm

/-- The operands of a node lie beside each other, below it and outside its lambdas. -/
theorem surface_operandNodes (h : node.ArgumentsListed) :
    ((operandNodes node).flatMap Node.surface).Subperm (node.children.flatMap Node.surface) := by
  have inRoles {fields : List Field} (hFields : fields.Nodup) :
      ((childrenIn node fields).flatMap Node.surface).Subperm
        (node.children.flatMap Node.surface) := (childrenIn_subperm node hFields).flatMap _
  have contents : (node.contents.flatMap Node.surface).Subperm
      (node.children.flatMap Node.surface) := (List.filter_sublist.flatMap _).subperm
  unfold operandNodes
  cases hNode : node.kind
  case parenthesizedExpression =>
    refine (List.Sublist.flatMap ?_ _).subperm.trans contents
    cases node.contents with
    | nil => exact .refl _
    | cons inner rest => exact .cons_cons inner (List.nil_sublist _)
  case callExpression =>
    refine List.Subperm.trans ?_ (inRoles (show [Field.function, .arguments].Nodup by decide))
    simp only [childrenIn, List.flatMap_append, List.flatMap_cons, List.flatMap_nil,
      List.append_nil]
    refine List.Subperm.append ?_ ?_
    · cases node.child? .function with
      | none => exact .refl _
      | some function =>
          rw [Option.toList_some, List.flatMap_singleton]
          exact surface_calleeNodes function
    · cases hArguments : node.child? .arguments with
      | none => exact .refl _
      | some arguments =>
          rw [Option.toList_some, List.flatMap_singleton]
          exact surface_contents (h node node.mem_preorder_self hNode arguments hArguments)
  all_goals first
    | exact inRoles (by decide)
    | exact contents
    | exact List.nil_subperm

/-- Reading a node reads the nodes outside its lambdas, each at most once. -/
theorem reads_subperm_surface (room : Nat) (h : node.ArgumentsListed) :
    (reads room node).Subperm node.surface := by
  induction room generalizing node with
  | zero => exact List.singleton_subperm_iff.mpr node.mem_surface_self
  | succ room ih =>
      rw [reads]
      by_cases hKind : node.kind = .lambdaExpression
      · have hNone : operandNodes node = [] := by rw [operandNodes, hKind]
        rw [hNone, Node.surface_lambda hKind]
        exact .refl _
      · rw [Node.surface_eq hKind, List.subperm_cons]
        refine List.Subperm.trans ?_ (surface_operandNodes h)
        exact .flatMap_of_forall fun operand hOperand =>
          ih (h.of_mem (mem_preorder_of_operandNodes hOperand))

end

/-- The position of a binary operator. -/
def binaryPosition? : Expr → Option Position
  | binary pos _ _ _ => some pos
  | _ => none

/-- The position of an increment or decrement. -/
def stepPosition? : Expr → Option Position
  | unary pos op _ => if op.isStep then some pos else none
  | _ => none

/-- The position of a call. -/
def callPosition? : Expr → Option Position
  | call pos _ _ => some pos
  | _ => none

/-- What is read from a node, as far as binary operators, increments, decrements and calls are
concerned. -/
inductive HeadOf (node : Node) : Expr → Prop where
  | binary (kind : node.kind = .binaryExpression) (op : BinaryOp) (left right : Expr) :
      HeadOf node (.binary (operatorPosition node) op left right)
  | update (kind : node.kind = .updateExpression) (op : UnaryOp) (operand : Expr) :
      HeadOf node (.unary (operatorPosition node) op operand)
  | unary (pos : Position) {op : UnaryOp} (noStep : op.isStep = false) (operand : Expr) :
      HeadOf node (.unary pos op operand)
  | call (kind : node.kind = .callExpression) (callee : Callee) (operands : List Expr) :
      HeadOf node (.call node.position callee operands)
  | plain {e : Expr} (noBinary : e.binaryPosition? = none) (noStep : e.stepPosition? = none)
      (noCall : e.callPosition? = none) : HeadOf node e

theorem HeadOf.conversion (node : Node) (pos : Position) (toBool : Bool) (operands : List Expr) :
    HeadOf node (conversion pos toBool operands) := by
  unfold Expr.conversion
  split <;> exact .plain rfl rfl rfl

/-- Whatever is called, the expression stands at the place of the call. -/
theorem headOf_ofCall {sub : Node → Expr} {node : Node} (hKind : node.kind = .callExpression)
    (function : Node) (arguments : List Expr) :
    HeadOf node (ofCall sub node function arguments) := by
  unfold ofCall
  split
  case h_4 | h_5 => exact .conversion _ _ _ _
  case h_6 =>
    split
    · exact .conversion _ _ _ _
    · exact .call hKind _ _
  all_goals exact .call hKind _ _

/-- An expression stands for its own node. Only parentheses stand for the node inside. -/
theorem headOf_ofNodeWith {sub : Node → Expr} {node : Node}
    (hKind : node.kind ≠ .parenthesizedExpression) : HeadOf node (ofNodeWith sub node) := by
  unfold ofNodeWith
  cases hNode : node.kind
  case parenthesizedExpression => exact absurd hNode hKind
  case binaryExpression => exact .binary hNode _ _ _
  case unaryExpression =>
    unfold ofUnary
    dsimp only
    split
    case h_6 => exact .plain rfl rfl rfl
    all_goals exact .unary _ rfl _
  case pointerExpression =>
    dsimp only
    split <;> exact .unary _ rfl _
  case updateExpression => exact .update hNode _ _
  case callExpression =>
    dsimp only
    split
    · exact headOf_ofCall hNode _ _
    · exact .plain rfl rfl rfl
  case conditionalExpression =>
    dsimp only
    split <;> exact .plain rfl rfl rfl
  all_goals exact .plain rfl rfl rfl

/-- The expressions that `position?` picks are read from nodes of one kind only, and their
positions are what `place` says of these nodes. -/
structure PlacedBy (position? : Expr → Option Position) (kind : Kind) (place : Node → Position) :
    Prop where
  var : ∀ (pos : Position) (name : String), position? (.var pos name) = none
  assign : ∀ (pos : Position) (compound : Bool) (target value : Expr),
    position? (.assign pos compound target value) = none
  unread : ∀ pos : Position, position? (.other pos []) = none
  head : ∀ {node : Node} {e : Expr} {pos : Position}, HeadOf node e → position? e = some pos →
    node.kind = kind ∧ place node = pos

section

variable {position? : Expr → Option Position} {kind : Kind} {place : Node → Position}

/-- In the expression of a node, the expressions of a sort stand where the nodes that were read
for them say, in the same order. -/
theorem PlacedBy.sublist (h : PlacedBy position? kind place) (room : Nat) (node : Node) :
    ((ofNodeWithin room node).preorder.filterMap position?).Sublist
      (((reads room node).filter fun read => read.kind == kind).map place) := by
  have hUnread (node : Node) : (Expr.unread node).preorder.filterMap position? = [] := by
    simp [Expr.unread, preorder_eq, children, h.unread]
  induction room generalizing node with
  | zero =>
      rw [ofNodeWithin, hUnread]
      exact List.nil_sublist _
  | succ room ih =>
      rw [ofNodeWithin, reads]
      have hOperands : (((operandNodes node).flatMap fun operand =>
            (ofNodeWithin room operand).preorder.filterMap position?)).Sublist
          ((((operandNodes node).flatMap (reads room)).filter fun read => read.kind == kind).map
            place) := by
        rw [List.filter_flatMap, List.map_flatMap]
        exact List.Sublist.flatMap_right _ fun operand _ => ih operand
      by_cases hParentheses : node.kind = .parenthesizedExpression
      · refine List.Sublist.trans ?_ (((List.sublist_cons_self _ _).filter _).map _)
        refine List.Sublist.trans ?_ hOperands
        rw [ofNodeWith, operandNodes, hParentheses]
        dsimp only
        cases node.contents with
        | nil =>
            rw [hUnread]
            exact List.nil_sublist _
        | cons inner rest => simp
      · have hParts : (((ofNodeWith (ofNodeWithin room) node).children.flatMap preorder).filterMap
            position?) = (operandNodes node).flatMap fun operand =>
              (ofNodeWithin room operand).preorder.filterMap position? := by
          rw [List.filterMap_flatMap]
          exact flatMap_children_ofNodeWith _ hUnread hParentheses
        rw [preorder_eq, List.filterMap_cons, hParts]
        cases hSelf : position? (ofNodeWith (ofNodeWithin room) node) with
        | none => exact hOperands.trans (((List.sublist_cons_self _ _).filter _).map _)
        | some pos =>
            obtain ⟨hKind, hPlace⟩ := h.head (headOf_ofNodeWith hParentheses) hSelf
            rw [List.filter_cons, if_pos (beq_iff_eq.mpr hKind), List.map_cons, hPlace]
            exact hOperands.cons_cons pos

end

theorem placedBy_binary : PlacedBy binaryPosition? .binaryExpression operatorPosition where
  var _ _ := rfl
  assign _ _ _ _ := rfl
  unread _ := rfl
  head {node e pos} hHead h := by
    cases hHead with
    | binary kind op left right => exact ⟨kind, Option.some.inj h⟩
    | plain noBinary noStep noCall => cases noBinary.symm.trans h
    | _ => cases h

theorem placedBy_step : PlacedBy stepPosition? .updateExpression operatorPosition where
  var _ _ := rfl
  assign _ _ _ _ := rfl
  unread _ := rfl
  head {node e pos} hHead h := by
    cases hHead with
    | update kind op operand =>
        rw [stepPosition?] at h
        split at h
        · exact ⟨kind, Option.some.inj h⟩
        · cases h
    | unary pos noStep operand => simp [stepPosition?, noStep] at h
    | plain noBinary noStep noCall => cases noStep.symm.trans h
    | _ => cases h

theorem placedBy_call : PlacedBy callPosition? .callExpression Node.position where
  var _ _ := rfl
  assign _ _ _ _ := rfl
  unread _ := rfl
  head {node e pos} hHead h := by
    cases hHead with
    | call kind callee operands => exact ⟨kind, Option.some.inj h⟩
    | plain noBinary noStep noCall => cases noCall.symm.trans h
    | _ => cases h

end Expr

end TruthLint
