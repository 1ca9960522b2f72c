import TruthLint.Expr.Lowering
import TruthLint.Proofs.Cst.Parentheses

/-! Parentheses and expressions. Putting parts of an expression in parentheses leaves it as it is,
with its positions, as long as the nodes are not nested too deep to be read. A part is asked for by
its role, as one of the contents, or by where it starts, and parentheses answer for what is in
them. -/

namespace TruthLint

open Cst

open Node (Parenthesized Kept InPlace)

namespace Cst.Node

/-- Increments and decrements have an operator, as the grammar has it. Without one it could not
stand before or behind the argument. -/
def StepsHaveOperators (node : Node) : Prop :=
  ∀ step ∈ node.preorder, step.kind = .updateExpression → (step.child? .operator).isSome

end Cst.Node

namespace Expr

variable {sub sub' : Node → Expr} {node node' : Node}

/-- What is read inside two nodes is the same, whatever parentheses it is in. -/
def SameInside (sub sub' : Node → Expr) (node node' : Node) : Prop :=
  ∀ part part', Parenthesized part part' → part ∈ node.preorder → part.height < node.height →
    part'.height < node'.height → sub' part' = sub part

namespace SameInside

/-- What is read in its place gives the same expression. -/
theorem read (h : SameInside sub sub' node node') {child child' : Node}
    (hChild : InPlace node node' child child') : sub' child' = sub child :=
  h child child' hChild.parenthesized
    (Node.mem_preorder_of_child hChild.mem child.mem_preorder_self)
    (Node.height_lt_of_mem_children hChild.mem) (Node.height_lt_of_mem_children hChild.mem')

theorem inside (h : SameInside sub sub' node node') {child child' : Node}
    (hChild : InPlace node node' child child') : SameInside sub sub' child child' :=
  fun part part' hPart hMem hHeight hHeight' =>
    h part part' hPart (Node.mem_preorder_of_child hChild.mem hMem)
      (Nat.lt_trans hHeight (Node.height_lt_of_mem_children hChild.mem))
      (Nat.lt_trans hHeight' (Node.height_lt_of_mem_children hChild.mem'))

end SameInside

theorem unread_kept (h : Kept node node') : unread node' = unread node := by
  rw [unread, h.position, unread]

/-- The part in a role is lowered to the same expression. -/
theorem part_kept (h : Kept node node') (hSub : SameInside sub sub' node node') (field : Field) :
    part sub' node' field = part sub node field := by
  have hPart (sub : Node → Expr) (node : Node) :
      part sub node field = ((node.child? field).map sub).getD (unread node) := by
    unfold part
    cases node.child? field <;> rfl
  have hRead : (node.child? field).map sub = (node'.child? field).map sub' :=
    (h.child?_rel field).map_eq fun _ _ hChild => (hSub.read hChild.1).symm
  rw [hPart, hPart, ← hRead, unread_kept h]

/-- All contents are lowered to the same expressions, in order. -/
theorem map_contents_kept (h : Kept node node') (hSub : SameInside sub sub' node node') :
    node'.contents.map sub' = node.contents.map sub := by
  have hContents : List.Forall₂ (· = ·) (node.contents.map sub) (node'.contents.map sub') := by
    rw [List.forall₂_map_left_iff, List.forall₂_map_right_iff]
    exact h.contents_rel.imp fun child child' hChild => (hSub.read hChild).symm
  rw [List.forall₂_eq_eq_eq] at hContents
  exact hContents.symm

/-- No parentheses can stand in the place of an operator. -/
theorem operatorToken_kept (h : Kept node node') : operatorToken node' = operatorToken node :=
  congrArg (Option.getD · "") (h.map_child? rfl fun _ hText => hText)

theorem operatorPosition_kept (h : Kept node node') :
    operatorPosition node' = operatorPosition node := by
  unfold operatorPosition
  rw [h.position]
  exact congrArg (Option.getD · node.position) (h.map_child? rfl fun hChild _ => hChild.position)

theorem memberName_kept (h : Kept node node') : memberName node' = memberName node :=
  congrArg (Option.getD · "") (h.map_child? rfl fun _ hText => hText)

/-- Parentheses around a child open behind what stands before it, and in front of it. -/
theorem lt_start_iff {child child' sibling : Node} (hChild : InPlace node node' child child')
    (hSibling : sibling ∈ node.children) :
    sibling.label.start < child'.label.start ↔ sibling.label.start < child.label.start := by
  cases hChild.place with
  | same label spelling => rw [label]
  | parentheses field allowed behind =>
      exact ⟨fun hBefore => Nat.lt_of_lt_of_le hBefore hChild.parenthesized.start_le,
        behind sibling hSibling⟩

/-- An update is an increment or a decrement as before, provided that its operator is there. -/
theorem updateOp_kept (h : Kept node node') (hOperator : (node.child? .operator).isSome) :
    updateOp node' = updateOp node := by
  obtain ⟨operator, hFound⟩ := Option.isSome_iff_exists.mp hOperator
  have hStart : (node'.child? .operator).map (·.label.start) = some operator.label.start := by
    rw [h.map_child? (f := fun child => child.label.start) rfl fun hChild _ => hChild.start, hFound]
    rfl
  have hArgument : (node.child? .argument).map
        (fun child => decide (operator.label.start < child.label.start)) =
      (node'.child? .argument).map fun child => decide (operator.label.start < child.label.start) :=
    (h.child?_rel .argument).map_eq fun child child' hChild =>
      decide_eq_decide.mpr (lt_start_iff hChild.1 (Node.mem_of_child? hFound)).symm
  have hOrder (argument : Option Node) :
      decide (operator.label.start < (argument.map (·.label.start)).getD 0) =
        (argument.map fun child =>
          decide (operator.label.start < child.label.start)).getD false := by
    cases argument with
    | none => exact decide_eq_false (Nat.not_lt_zero _)
    | some argument => rfl
  simp only [updateOp, operatorToken_kept h, hStart, hFound, Option.map_some, Option.getD_some,
    hOrder, hArgument]

theorem ofUnary_kept (h : Kept node node') (hSub : SameInside sub sub' node node') :
    ofUnary sub' node' = ofUnary sub node := by
  simp only [ofUnary, part_kept h hSub, operatorToken_kept h, h.position]

/-- The function of a call stays, and what it is a member of may be put in parentheses. -/
theorem ofCall_kept {function function' : Node} (h : Kept node node')
    (hFunction : InPlace node node' function function') (hKept : Kept function function')
    (hSub : SameInside sub sub' node node') (arguments : List Expr) :
    ofCall sub' node' function' arguments = ofCall sub node function arguments := by
  have hName : (function'.child? .name).map Node.text = (function.child? .name).map Node.text :=
    hKept.map_child? rfl fun _ hText => hText
  have hTarget (hKind : function.kind = .templateFunction) :
      (function'.child? .arguments).any isBoolArgument =
        (function.child? .arguments).any isBoolArgument :=
    hKept.any_child? (by rw [hKind]; rfl) fun hText => by rw [isBoolArgument, hText, isBoolArgument]
  unfold ofCall
  simp only [hKept.kind, h.position, hSub.read hFunction, memberName_kept hKept,
    part_kept hKept (hSub.inside hFunction), hName]
  cases hKind : function.kind
  case templateFunction => simp only [hTarget hKind]
  case identifier | qualifiedIdentifier | primitiveType | sizedTypeSpecifier =>
    simp only [hKept.text (by rw [hKind]; rfl)]
  all_goals rfl

/-- A list of arguments may have parentheses around each of them, and none around itself. -/
theorem arguments_kept (h : Kept node node') (hSub : SameInside sub sub' node node') :
    (((node'.child? .arguments).map Node.contents).getD []).map sub' =
      (((node.child? .arguments).map Node.contents).getD []).map sub := by
  have hRead : (node.child? .arguments).map (fun arguments => arguments.contents.map sub) =
      (node'.child? .arguments).map fun arguments => arguments.contents.map sub' :=
    (h.child?_kept rfl).map_eq fun _ _ hChild =>
      (map_contents_kept hChild.2 (hSub.inside hChild.1)).symm
  have hMap (sub : Node → Expr) (arguments : Option Node) :
      ((arguments.map Node.contents).getD []).map sub =
        (arguments.map fun arguments => arguments.contents.map sub).getD [] := by
    cases arguments <;> rfl
  rw [hMap, hMap, hRead]

/-- A node with parentheses further inside reads the same, if what is inside does. -/
theorem ofNodeWith_kept (h : Kept node node') (hSub : SameInside sub sub' node node')
    (hOperator : node.kind = .updateExpression → (node.child? .operator).isSome) :
    ofNodeWith sub' node' = ofNodeWith sub node := by
  unfold ofNodeWith
  simp only [h.kind, h.position, operatorToken_kept h, operatorPosition_kept h,
    memberName_kept h, part_kept h hSub, map_contents_kept h hSub, unread_kept h,
    ofUnary_kept h hSub, arguments_kept h hSub]
  cases hKind : node.kind
  case updateExpression => simp only [updateOp_kept h (hOperator hKind)]
  case parenthesizedExpression =>
    have hContents := h.contents_rel
    dsimp only
    generalize node.contents = contents at hContents ⊢
    generalize node'.contents = contents' at hContents ⊢
    cases hContents with
    | nil => rfl
    | cons first rest => exact hSub.read first
  case callExpression =>
    have hRole : node.kind.allowsParentheses (some .function) = false := by rw [hKind]; rfl
    have hFunction := h.child?_kept hRole
    dsimp only
    generalize node.child? .function = function at hFunction ⊢
    generalize node'.child? .function = function' at hFunction ⊢
    cases hFunction with
    | none => rfl
    | some hBoth => exact ofCall_kept h hBoth.1 hBoth.2 hSub _
  case castExpression =>
    have hType : (node'.child? .type).any (fun type => Text.isBoolType type.text) =
        (node.child? .type).any fun type => Text.isBoolType type.text :=
      h.any_child? rfl fun hText => by rw [hText]
    dsimp only
    rw [hType]
  case conditionalExpression =>
    have hConsequence := h.child?_rel .consequence
    dsimp only
    generalize node.child? .consequence = consequence at hConsequence ⊢
    generalize node'.child? .consequence = consequence' at hConsequence ⊢
    cases hConsequence with
    | none => rfl
    | some hBoth => dsimp only; rw [hSub.read hBoth.1]
  case numberLiteral | identifier => simp only [h.text (by rw [hKind]; rfl)]
  all_goals rfl

/-- Reading parentheses is reading what they are around. -/
theorem ofNodeWith_wrap {inner : Node} (part : Parenthesized node inner)
    (content : node.isContent = true) {label : Label} (kind : label.kind = .parenthesizedExpression)
    {before after : List Node} (comments : ∀ node ∈ before ++ after, node.isContent = false) :
    ofNodeWith sub (.mk label (before ++ inner :: after)) = sub inner := by
  rw [ofNodeWith, part.contents_wrap content label comments, Node.kind, Node.label, kind]

/-- With enough room for all of their nodes, a tree and the same tree with more parentheses read the
same. New parentheses take a unit of room from the second tree alone, and at a node that is kept
both trees go one level down, so the induction is on the room of the second tree. -/
theorem ofNodeWithin_parenthesized {room room' : Nat} (h : Parenthesized node node')
    (hOperators : node.StepsHaveOperators) (hRoom : node.height ≤ room)
    (hRoom' : node'.height ≤ room') : ofNodeWithin room' node' = ofNodeWithin room node := by
  induction room' generalizing room node node' with
  | zero => exact absurd hRoom' (Nat.not_le_of_lt node'.height_pos)
  | succ room' ih =>
      cases h with
      | @wrap _ inner part content label kind named opens before after comments =>
          have hInner : inner ∈ before ++ inner :: after :=
            List.mem_append_right before List.mem_cons_self
          have hLower := Node.height_lt_of_mem_children
            (show inner ∈ (Node.mk label (before ++ inner :: after)).children from hInner)
          rw [ofNodeWithin, ofNodeWith_wrap part content kind comments]
          exact ih part hOperators hRoom (by omega)
      | @keep label field row text spelling children children' parts places =>
          obtain _ | room := room
          · exact absurd hRoom (Nat.not_le_of_lt (Node.height_pos _))
          have hSub : SameInside (ofNodeWithin room) (ofNodeWithin room') (.mk label children)
              (.mk { label with field := field, row := row, text := text } children') :=
            fun part part' hPart hMem hHeight hHeight' =>
              ih hPart (fun step hStep => hOperators step (Node.preorder_subset hMem hStep))
                (by omega) (by omega)
          exact ofNodeWith_kept (.of_keep field row spelling parts places) hSub
            (hOperators _ (Node.mem_preorder_self _))

/-- Parentheses do not show in an expression. -/
theorem ofNode_parenthesized (h : Parenthesized node node') (hOperators : node.StepsHaveOperators)
    (hNesting : node.height ≤ nestingLimit) (hNesting' : node'.height ≤ nestingLimit) :
    ofNode node' = ofNode node :=
  ofNodeWithin_parenthesized h hOperators hNesting hNesting'

/-- A node at an offset of the first line of a source text. -/
def nodeAt (named : Bool) (kind : Kind) (field : Option Field) (start : Nat) (text : String)
    (children : List Node) : Node :=
  .mk ⟨kind, field, named, false, false, false, 0, start, ⟨1, start + 1⟩, text⟩ children

def tokenAt (token : String) (field : Option Field) (start : Nat) : Node :=
  nodeAt false (.other token) field start token []

def nameAt (field : Option Field) (start : Nat) (name : String) : Node :=
  nodeAt true .identifier field start name []

/-- The increment at offset 7 of an argument. -/
def stepAt (text : String) (argument : Node) : Node :=
  nodeAt true .updateExpression none 7 text [tokenAt "++" (some .operator) 7, argument]

/-- Parentheses around a node, behind some comments. -/
def parenthesesAt (field : Option Field) (start stop : Nat) (text : String) (comments : List Node)
    (inner : Node) : Node :=
  nodeAt true .parenthesizedExpression field start text
    ((tokenAt "(" none start :: comments) ++ inner :: [tokenAt ")" none stop])

/-- The call of `g` with two arguments. -/
def callOfTwo (text : String) (first second : Node) : Node :=
  nodeAt true .callExpression none 0 ("g" ++ text)
    [nameAt (some .function) 0 "g",
      nodeAt true (.other "argument_list") (some .arguments) 1 text
        [tokenAt "(" none 1, first, tokenAt "," none 5, second, tokenAt ")" none 18]]

/-- The tree of `g( a , ++      b  )`. -/
def plainCall : Node :=
  callOfTwo "( a , ++      b  )" (nameAt none 3 "a")
    (stepAt "++      b" (nameAt (some .argument) 15 "b"))

def wrappedFirst : Node := parenthesesAt none 2 4 "(a)" [] (nameAt none 3 "a")

def wrappedSecond : Node :=
  parenthesesAt (some .argument) 9 17 "(/**/(b))" [nodeAt true .comment none 10 "/**/" []]
    (parenthesesAt none 14 16 "(b)" [] (nameAt none 15 "b"))

/-- The tree of `g((a), ++(/**/(b)))`. -/
def wrappedCall : Node :=
  callOfTwo "((a), ++(/**/(b)))" wrappedFirst (stepAt "++(/**/(b))" wrappedSecond)

/-- The call has two pairs of parentheses more, around an argument and around an operand. -/
theorem parenthesized_wrappedCall : Parenthesized plainCall wrappedCall := by
  have hName (field : Option Field) (start : Nat) (name : String) :
      Parenthesized (nameAt field start name) (nameAt none start name) :=
    .keep none 0 name (fun _ => rfl) .nil .nil
  have hFirst : Parenthesized (nameAt none 3 "a") wrappedFirst :=
    .wrap (hName none 3 "a") rfl rfl rfl (by decide) (by decide)
  have hInner : Parenthesized (nameAt (some .argument) 15 "b")
      (parenthesesAt none 14 16 "(b)" [] (nameAt none 15 "b")) :=
    .wrap (hName (some .argument) 15 "b") rfl rfl rfl (by decide) (by decide)
  have hSecond : Parenthesized (nameAt (some .argument) 15 "b") wrappedSecond :=
    .wrap hInner rfl rfl rfl (by decide) (by decide)
  have hStep : Parenthesized (stepAt "++      b" (nameAt (some .argument) 15 "b"))
      (stepAt "++(/**/(b))" wrappedSecond) :=
    .keep none 0 "++(/**/(b))" (by decide) (.cons (.refl _) (.cons hSecond .nil))
      (.cons (.same rfl fun _ => rfl) (.cons (.parentheses rfl rfl (by decide)) .nil))
  have hSame {parent : Kind} {siblings : List Node} (node : Node) :
      Node.KeepsPlace parent siblings node node := .same rfl fun _ => rfl
  refine .keep none 0 "g((a), ++(/**/(b)))" (by decide) (.cons (.refl _) (.cons ?_ .nil))
    (.cons (hSame _) (.cons (.same rfl (by decide)) .nil))
  exact .keep (some .arguments) 0 "((a), ++(/**/(b)))" (by decide)
    (.cons (.refl _) (.cons hFirst (.cons (.refl _) (.cons hStep (.cons (.refl _) .nil)))))
    (.cons (hSame _) (.cons (.parentheses rfl rfl (by decide)) (.cons (hSame _)
      (.cons (.same rfl (by decide)) (.cons (hSame _) .nil)))))

/-- The arguments of a call are put in parentheses, the second one twice and behind a comment. The
increment still stands before its argument, although the comment is between them. -/
theorem ofNode_parenthesized_arguments :
    Parenthesized plainCall wrappedCall ∧ plainCall.StepsHaveOperators ∧
      plainCall.height ≤ nestingLimit ∧ wrappedCall.height ≤ nestingLimit ∧
      ofNode wrappedCall = ofNode plainCall ∧
      ofNode plainCall = .call ⟨1, 1⟩ (.unqualified "g")
        [.var ⟨1, 4⟩ "a", .unary ⟨1, 8⟩ .preIncrement (.var ⟨1, 16⟩ "b")] := by
  have hOperators : plainCall.StepsHaveOperators := by
    unfold Node.StepsHaveOperators
    decide
  have hNesting : plainCall.height ≤ nestingLimit := by decide
  have hNesting' : wrappedCall.height ≤ nestingLimit := by decide
  have hSame := ofNode_parenthesized parenthesized_wrappedCall hOperators hNesting hNesting'
  exact ⟨parenthesized_wrappedCall, hOperators, hNesting, hNesting', hSame, rfl⟩

end Expr

end TruthLint
