import TruthLint.Cst.Row
import TruthLint.Proofs.Cst.Prune
import TruthLint.Proofs.Model.Extends
import TruthLint.Proofs.Outline.Related

/-! Syntax errors and the model. What is below an ERROR node is passed over wherever declarations,
statements and expressions are read. Two ways lead into it all the same: the root of a tree is not
checked, and the search for lambdas goes through ERROR nodes. -/

namespace TruthLint

open Cst

namespace Cst.Node

/-- No lambda of an expression is reached through an ERROR node. -/
def NoLambdaInErrors (node : Node) : Prop :=
  ∀ e ∈ node.surface, e.kind = .error → ∀ inner ∈ e.surface, inner.kind ≠ .lambdaExpression

/-- What holds of the errors in an expression holds of those in its parts. -/
theorem NoLambdaInErrors.of_child {node child : Node} (h : node.NoLambdaInErrors)
    (hKind : node.kind ≠ .lambdaExpression) (hChild : child ∈ node.children) :
    child.NoLambdaInErrors := by
  intro e hError
  refine h e ?_
  rw [surface_eq hKind]
  exact List.mem_cons_of_mem _ (List.mem_flatMap.mpr ⟨child, hChild, hError⟩)

end Cst.Node

namespace Outline

open Node (ErrorsUnnamed NoLambdaInErrors)

/-- Recording either outline has the same effect. -/
def Equivalent (entries entries' : List Entry) : Prop :=
  ∀ (current : Nat) (model : Model),
    Model.recordAll current model entries = Model.recordAll current model entries'

theorem equivalent_singleton {entry entry' : Entry}
    (h : ∀ current model, Model.record current model entry = Model.record current model entry') :
    Equivalent [entry] [entry'] := by
  intro current model
  rw [Model.recordAll, Model.recordAll, h]
  rfl

/-- Outlines that have the same effect may be put in the place of each other anywhere inside an
outline. -/
theorem equivalent_congruence : Congruence Equivalent where
  nil _ _ := rfl
  append hFirst hSecond current model := by
    rw [Model.recordAll_append, Model.recordAll_append, hFirst, hSecond]
  var _ _ _ _ _ := rfl
  function _ _ _ _ _ := rfl
  root context hExpr := equivalent_singleton fun _ _ => by
    rw [Model.record, Model.record, hExpr]
  scope _ _ _ _ _ _ hBody := equivalent_singleton fun _ _ => hBody _ _
  nameSpace _ _ _ _ hBody := equivalent_singleton fun _ _ => hBody _ _
  definition declared _ _ _ _ _ hBody := equivalent_singleton fun _ _ => by
    cases declared with
    | none => exact hBody _ _
    | some declared => exact hBody _ _

/-- An ERROR node contributes nothing to declarations, statements and expressions. -/
theorem ofNode_error {node : Node} (h : node.kind = .error) {role : Role}
    (hRole : role.passesErrors = true) : ofNode node role = [] := by
  have hItem : item node (partsOf node) = [] := by
    unfold item
    rw [h]
    rfl
  have hTested : tested node (partsOf node) = [] := by
    unfold tested
    rw [h]
    exact hItem
  have hDeclared (base : VariableType) : Declared.ofNode base node = .unnamed := by
    obtain ⟨label, children⟩ := node
    rw [Declared.ofNode, show label.kind = .error from h]
  rw [ofNode_eq]
  cases role with
  | item => exact hItem
  | members | lambdas | initializer => cases hRole
  | condition =>
      rw [step, if_neg (by rw [h]; decide)]
      exact hTested
  | tested => exact hTested
  | typeSpecifier => rw [step, if_neg (by rw [h]; decide)]
  | declarator base context =>
      rw [step, if_neg (by rw [h]; decide), hDeclared]
      rfl
  | evaluated context => rw [step, if_neg (by rw [h]; decide)]
  | returned =>
      rw [step, returned, if_neg (by rw [h]; decide), if_neg (by rw [h]; decide)]

/-- Where there is no lambda, the search for lambdas finds nothing. -/
theorem ofNode_lambdas_eq_nil {node : Node}
    (h : ∀ inner ∈ node.surface, inner.kind ≠ .lambdaExpression) : ofNode node .lambdas = [] := by
  induction node using Node.children_induction with
  | h node ih =>
      have hKind := h node node.mem_surface_self
      rw [ofNode_eq, step, lambdas, if_neg hKind, each_partsOf, List.flatMap_eq_nil_iff]
      intro child hChild
      have hMem := List.mem_of_mem_filter hChild
      refine ih child hMem fun inner hInner => h inner ?_
      rw [Node.surface_eq hKind]
      exact List.mem_cons_of_mem _ (List.mem_flatMap.mpr ⟨child, hMem, hInner⟩)

theorem declaredBy_prune (base : VariableType) (node : Node) :
    declaredBy base node.prune = declaredBy base node := by
  rw [declaredBy, Declared.ofNode_prune, Declared.entries_prune, Declared.target?_prune]
  rfl

theorem parameters_prune {node : Node} (h : node.kind ≠ .error) (hUnnamed : node.ErrorsUnnamed) :
    (node.prune.child? .parameters).map parameterEntries =
      (node.child? .parameters).map parameterEntries := by
  rw [Node.child?_prune h]
  cases hParameters : node.child? .parameters with
  | none => rfl
  | some parameters =>
      exact congrArg some (parameterEntries_prune (hUnnamed.kind_of_child? hParameters))

/-- The function that a declarator declares is headed the same, since function declarators are no
errors. -/
theorem heading_prune {declarator : Node} (hUnnamed : declarator.ErrorsUnnamed) :
    (functionDeclarator? false declarator.prune).map heading =
      (functionDeclarator? false declarator).map heading := by
  rw [functionDeclarator?_prune, Option.map_map]
  cases hFound : functionDeclarator? false declarator with
  | none => rfl
  | some found =>
      obtain ⟨hMem, hKind⟩ := mem_of_functionDeclarator? hFound
      have hNotError : found.1.kind ≠ .error := by rw [hKind]; decide
      have hName : (found.1.prune.child? .declarator).map Node.label =
          (found.1.child? .declarator).map Node.label :=
        Node.map_child?_prune hNotError id .declarator
      have hParameters := parameters_prune hNotError (hUnnamed.of_mem hMem)
      simp only [Option.map_some, Function.comp_apply, heading, hName, hParameters]

/-- A node that is no error agrees with itself without what is below the errors in it. -/
theorem agree_prune {node : Node} (h : node.kind ≠ .error) (hUnnamed : node.ErrorsUnnamed) :
    Agree node.prune node where
  label := node.label_prune
  expr := Expr.ofNodeWithin_prune Expr.nestingLimit hUnnamed
  labels field := by
    rw [Node.child?_prune h, Option.map_map]
    exact congrArg (Option.map · (node.child? field)) (funext Node.label_prune)
  equals := by
    unfold equalsPosition?
    rw [Node.childOfKind?_prune h, Option.map_map]
    exact congrArg (Option.map · (node.childOfKind? .equals)) (funext Node.position_prune)
  declared base := declaredBy_prune base node
  declarators base := by
    rw [Node.filter_children_prune h (Node.hasField_prune _), List.map_map]
    exact congrArg (List.map · _) (funext (declaredBy_prune base))
  parameters := by
    rw [Node.child?_prune h]
    cases hDeclarator : node.child? .declarator with
    | none => rfl
    | some declarator =>
        have hUnnamed' := hUnnamed.of_child (Node.mem_of_child? hDeclarator)
        exact parameters_prune (hUnnamed.kind_of_child? hDeclarator) hUnnamed'
  heading := by
    rw [Node.child?_prune h]
    cases hDeclarator : node.child? .declarator with
    | none => rfl
    | some declarator =>
        have hUnnamed' := hUnnamed.of_child (Node.mem_of_child? hDeclarator)
        exact heading_prune hUnnamed'

/-- Nothing is read of an ERROR node apart from its lambdas, so that it is the same if there are
none of them. -/
theorem equivalent_prune_error {node : Node} (hKind : node.kind = .error) {role : Role}
    (hRole : role.passesErrors = true ∨ role = .lambdas)
    (hLambdas : role = .lambdas → node.NoLambdaInErrors) :
    Equivalent (ofNode node.prune role) (ofNode node role) := by
  have hPruned : node.prune.kind = .error := node.kind_prune.trans hKind
  rcases hRole with hPasses | rfl
  · rw [ofNode_error hKind hPasses, ofNode_error hPruned hPasses]
    exact equivalent_congruence.nil
  · have hNone := hLambdas rfl node node.mem_surface_self hKind
    have hNonePruned : ∀ inner ∈ node.prune.surface, inner.kind ≠ .lambdaExpression := by
      rw [Node.surface_eq (by rw [hPruned]; decide), Node.children_prune_error hKind]
      intro inner hInner
      rw [List.mem_singleton.mp hInner, hPruned]
      decide
    rw [ofNode_lambdas_eq_nil hNone, ofNode_lambdas_eq_nil hNonePruned]
    exact equivalent_congruence.nil

/-- What the children of a sort contribute has the same effect if it does for each of them. -/
theorem equivalent_each_prune {node : Node} (hKind : node.kind ≠ .error) {p : Node → Bool}
    (hp : ∀ child : Node, p child.prune = p child) {role : Role}
    (h : ∀ child ∈ node.children, Equivalent (ofNode child.prune role) (ofNode child role)) :
    Equivalent ((partsOf node.prune).each p role) ((partsOf node).each p role) := by
  rw [each_partsOf, each_partsOf, Node.filter_children_prune hKind hp, List.flatMap_map]
  refine related_flatMap equivalent_congruence (List.forall₂_same.mpr fun child hMem => ?_)
  exact h child (List.mem_of_mem_filter hMem)

/-- The children of a node that is no error have the same effect, the search for lambdas aside, if
each has it in the roles that pass over errors and in those that no error is used in. -/
theorem relatedParts_prune {node : Node} (hKind : node.kind ≠ .error)
    (hUnnamed : node.ErrorsUnnamed)
    (h : ∀ child ∈ node.children, ∀ role : Role, role ≠ .lambdas →
      (child.kind = .error → role.passesErrors = true) →
      Equivalent (ofNode child.prune role) (ofNode child role)) :
    RelatedParts Equivalent (partsOf node.prune) (partsOf node) where
  first field role hRole := by
    rw [first_partsOf, first_partsOf, Node.child?_prune hKind]
    cases hFirst : node.child? field with
    | none => exact equivalent_congruence.nil
    | some child =>
        have hNotError := hUnnamed.kind_of_child? hFirst
        simpa using h child (Node.mem_of_child? hFirst) role hRole fun hError =>
          absurd hError hNotError
  each p role hPasses := by
    have hRole : role ≠ .lambdas := by rintro rfl; cases hPasses
    refine equivalent_each_prune hKind (fun child => ?_) fun child hMem =>
      h child hMem role hRole fun _ => hPasses
    simp only [Function.comp, Node.label_prune]

/-- In every role that is used for it, a node has the same effect without what is below the errors
in it. Only a search for lambdas goes on below an error, and it finds none there. -/
theorem equivalent_prune (node : Node) (hUnnamed : node.ErrorsUnnamed)
    (hInside : ∀ whole ∈ node.preorder, whole.kind.isExpression = true → whole.NoLambdaInErrors)
    (role : Role) (hRole : node.kind = .error → role.passesErrors = true ∨ role = .lambdas)
    (hLambdas : role = .lambdas → node.NoLambdaInErrors) :
    Equivalent (ofNode node.prune role) (ofNode node role) := by
  induction node using Node.children_induction generalizing role with
  | h node ih =>
      have hChild {child : Node} (hMem : child ∈ node.children) :=
        ih child hMem (hUnnamed.of_child hMem)
          fun whole hWhole => hInside whole (Node.mem_preorder_of_child hMem hWhole)
      by_cases hKind : node.kind = .error
      · exact equivalent_prune_error hKind (hRole hKind) hLambdas
      · have hAgree := agree_prune hKind hUnnamed
        have hParts : RelatedParts Equivalent (partsOf node.prune) (partsOf node) :=
          relatedParts_prune hKind hUnnamed fun child hMem role hRole hPasses =>
            hChild hMem role (fun hError => .inl (hPasses hError)) fun h => absurd h hRole
        rw [ofNode_eq, ofNode_eq]
        refine related_step equivalent_congruence hAgree hParts role fun hSearch => ?_
        have hNoLambda : node.NoLambdaInErrors := by
          rcases hSearch with hRole | hExpression
          · exact hLambdas hRole
          · exact hInside node node.mem_preorder_self (node.kind_prune ▸ hExpression)
        refine related_lambdas equivalent_congruence hAgree hParts fun hNotLambda => ?_
        rw [Node.kind_prune] at hNotLambda
        exact equivalent_each_prune hKind Node.isContent_prune fun child hMem =>
          hChild hMem .lambdas (fun _ => .inr rfl) fun _ => hNoLambda.of_child hNotLambda hMem

end Outline

namespace Model

open Node (ErrorsUnnamed NoLambdaInErrors)

/-- Syntax errors contribute nothing to the model, as long as the root is none and no lambda is
reached through one: without what is below its ERROR nodes the tree has the same model. -/
theorem ofTree_prune {root : Node} (hRoot : root.kind ≠ .error) (hUnnamed : root.ErrorsUnnamed)
    (hLambdas : ∀ whole ∈ root.preorder, whole.kind.isExpression = true →
      whole.NoLambdaInErrors) : ofTree root.prune = ofTree root :=
  Outline.equivalent_prune root hUnnamed hLambdas .members (fun h => absurd h hRoot) nofun
    globalScope initial

/-- The tree of a template whose parameters are not closed, so that only the body in braces is
left of the function. -/
def unclosedTemplate : Node :=
  .ofRows "template < bool b void f() \x7b b++; \x7d "
    [⟨none, "translation_unit", true, false, false, true, none, 0, 36⟩,
      ⟨some 0, "ERROR", true, true, false, true, none, 0, 26⟩,
      ⟨some 1, "parameter_declaration", true, false, false, true, none, 11, 26⟩,
      ⟨some 2, "primitive_type", true, false, false, false, some "type", 11, 15⟩,
      ⟨some 2, "ERROR", true, true, false, true, none, 16, 22⟩,
      ⟨some 4, "identifier", true, false, false, false, none, 16, 17⟩,
      ⟨some 4, "identifier", true, false, false, false, none, 18, 22⟩,
      ⟨some 2, "function_declarator", true, false, false, false, some "declarator", 23, 26⟩,
      ⟨some 7, "identifier", true, false, false, false, some "declarator", 23, 24⟩,
      ⟨some 7, "parameter_list", true, false, false, false, some "parameters", 24, 26⟩,
      ⟨some 0, "compound_statement", true, false, false, false, none, 27, 35⟩,
      ⟨some 10, "expression_statement", true, false, false, false, none, 29, 33⟩,
      ⟨some 11, "update_expression", true, false, false, false, none, 29, 32⟩,
      ⟨some 12, "identifier", true, false, false, false, some "argument", 29, 30⟩,
      ⟨some 12, "++", false, false, false, false, some "operator", 30, 32⟩]

/-- The function and its parameter are lost in the error, and the body is read as a block. -/
theorem ofTree_prune_unclosedTemplate :
    unclosedTemplate.kind ≠ .error ∧ unclosedTemplate.ErrorsUnnamed ∧
      (∀ whole ∈ unclosedTemplate.preorder, whole.kind.isExpression = true →
        whole.NoLambdaInErrors) ∧
      unclosedTemplate.preorder.length = 15 ∧ unclosedTemplate.prune.preorder.length = 7 ∧
      ofTree unclosedTemplate.prune = ofTree unclosedTemplate := by
  have hRoot : unclosedTemplate.kind ≠ .error := by decide +kernel
  have hUnnamed : unclosedTemplate.ErrorsUnnamed := by unfold ErrorsUnnamed; decide +kernel
  have hLambdas : ∀ whole ∈ unclosedTemplate.preorder, whole.kind.isExpression = true →
      whole.NoLambdaInErrors := by unfold NoLambdaInErrors; decide +kernel
  exact ⟨hRoot, hUnnamed, hLambdas, by decide +kernel, by decide +kernel,
    ofTree_prune hRoot hUnnamed hLambdas⟩

/-- The tree of a function body that ends in an open comment, which is an error as a whole. -/
def unterminatedComment : Node :=
  .ofRows "void f(bool b) \x7b b++; /* unterminated"
    [⟨none, "ERROR", true, true, false, true, none, 0, 37⟩,
      ⟨some 0, "primitive_type", true, false, false, false, some "type", 0, 4⟩,
      ⟨some 0, "function_declarator", true, false, false, false, none, 5, 14⟩,
      ⟨some 2, "identifier", true, false, false, false, some "declarator", 5, 6⟩,
      ⟨some 2, "parameter_list", true, false, false, false, some "parameters", 6, 14⟩,
      ⟨some 4, "parameter_declaration", true, false, false, false, none, 7, 13⟩,
      ⟨some 5, "primitive_type", true, false, false, false, some "type", 7, 11⟩,
      ⟨some 5, "identifier", true, false, false, false, some "declarator", 12, 13⟩,
      ⟨some 0, "expression_statement", true, false, false, false, none, 17, 21⟩,
      ⟨some 8, "update_expression", true, false, false, false, none, 17, 20⟩,
      ⟨some 9, "identifier", true, false, false, false, some "argument", 17, 18⟩,
      ⟨some 9, "++", false, false, false, false, some "operator", 18, 20⟩,
      ⟨some 0, "ERROR", true, true, false, true, none, 22, 23⟩,
      ⟨some 0, "pointer_declarator", true, false, false, false, none, 23, 37⟩,
      ⟨some 13, "identifier", true, false, false, false, some "declarator", 25, 37⟩]

/-- The condition on the root cannot be left out: what is below an ERROR root is read like any
statements, and its expressions end up in the model. -/
theorem not_ofTree_prune_of_error_root :
    unterminatedComment.kind = .error ∧ (ofTree unterminatedComment).roots.size = 3 ∧
      (ofTree unterminatedComment.prune).roots.size = 0 ∧
      ¬∀ root : Node, ofTree root.prune = ofTree root := by
  have hRead : (ofTree unterminatedComment).roots.size = 3 := by decide +kernel
  have hPruned : (ofTree unterminatedComment.prune).roots.size = 0 := by decide +kernel
  refine ⟨by decide +kernel, hRead, hPruned, fun hAll => ?_⟩
  rw [hAll, hRead] at hPruned
  cases hPruned

/-- Nor can the condition on lambdas: the search for them runs through the ERROR node in an
argument list, and the statement in the lambda is read. -/
example :
    let root : Node := .ofRows "f(* [] \x7b b; \x7d)"
      [⟨none, "translation_unit", true, false, false, true, none, 0, 14⟩,
        ⟨some 0, "call_expression", true, false, false, true, none, 0, 14⟩,
        ⟨some 1, "identifier", true, false, false, false, some "function", 0, 1⟩,
        ⟨some 1, "argument_list", true, false, false, true, some "arguments", 1, 14⟩,
        ⟨some 3, "ERROR", true, true, false, true, none, 2, 13⟩,
        ⟨some 4, "lambda_expression", true, false, false, false, none, 4, 13⟩,
        ⟨some 5, "compound_statement", true, false, false, false, some "body", 7, 13⟩,
        ⟨some 6, "identifier", true, false, false, false, none, 9, 10⟩]
    (ofTree root).roots.size = 2 ∧ (ofTree root.prune).roots.size = 1 := by
  decide +kernel

end Model

end TruthLint
