import Mathlib.Data.List.Forall2
import TruthLint.Cst.Fault
import TruthLint.Proofs.Cst.Lambdas
import TruthLint.Proofs.Model.Bodies
import TruthLint.Proofs.Model.Recording

/-! The search for lambdas in an expression. It keeps a stack of the nodes that wait and a scope
that changes while the inside of a lambda is read, in which further scopes are created and further
searches run. It comes to the outermost lambdas of the expression, each once and in the order in
which they are read, and all of them are read in scopes inside the one in which the expression is
evaluated. -/

namespace TruthLint

open Cst

namespace Cst.Node

/-- The contents of a node extend at most as far as its children, some of which are left out of
them. So the search gets shorter when it goes on below a node. -/
theorem extent_contents_le (node : Node) : extent node.contents ≤ extent node.children := by
  simp only [extent, preorderAll_eq_flatMap, contents]
  exact (List.filter_sublist.flatMap preorder).length_le

theorem extent_eq (node : Node) : extent [node] = extent node.children + 1 := by
  obtain ⟨label, children⟩ := node
  exact extent_singleton label children

end Cst.Node

namespace Outline

/-- What is recorded in the scope of a lambda: its parameters and its body. -/
def lambdaContents (lambda : Node) : List Entry :=
  (((lambda.child? .declarator).bind (·.child? .parameters)).map parameterEntries).getD [] ++
    (partsOf lambda).first .body .members

def lambdaEntry (lambda : Node) : Entry :=
  .scope .function none (line lambda) (lambdaContents lambda)

/-- The lambdas of an expression contribute a scope each. -/
theorem ofNode_lambdas (node : Node) : ofNode node .lambdas = node.lambdaNodes.map lambdaEntry := by
  induction node using Node.children_induction with
  | h node ih =>
      rw [ofNode_eq, step, lambdas]
      split_ifs with hKind
      · rw [Node.lambdaNodes_of_lambda hKind]
        rfl
      · rw [Node.lambdaNodes_of_ne hKind, each_partsOf, List.map_flatMap]
        exact List.flatMap_congr fun child hChild => ih child (List.mem_of_mem_filter hChild)

end Outline

/-- Roles in which an expression is evaluated. -/
def Role.evaluates : Role → Bool
  | .item | .condition | .tested | .initializer _ _ _ | .evaluated _ | .returned => true
  | .members | .lambdas | .typeSpecifier | .declarator _ _ => false

/-- An expression that is evaluated is followed by the lambdas in it. -/
theorem Outline.ofNode_of_evaluates {node : Node} (hExpression : node.kind.isExpression = true)
    {role : Role} (hRole : role.evaluates = true) :
    ∃ seed context, seed.node = node ∧
      ofNode node role = .root seed context :: ofNode node .lambdas := by
  have hEvaluated (context : RootContext) : ∃ seed other, Seed.node seed = node ∧
      evaluated node (partsOf node) context = .root seed other :: ofNode node .lambdas :=
    ⟨.expression node, context, rfl, by rw [ofNode_eq node .lambdas, step, evaluated]⟩
  have hTested : tested node (partsOf node) = evaluated node (partsOf node) .condition := by
    unfold tested
    cases hKind : node.kind <;> simp_all [Kind.isExpression]
  rw [ofNode_eq node role]
  cases role with
  | members | lambdas | typeSpecifier | declarator => cases hRole
  | item =>
      rw [step, item_of_isExpression hExpression]
      exact hEvaluated _
  | condition =>
      have hClause : node.kind ≠ .conditionClause := by
        intro hKind
        rw [hKind] at hExpression
        cases hExpression
      rw [step, if_neg hClause, hTested]
      exact hEvaluated _
  | tested =>
      rw [step, hTested]
      exact hEvaluated _
  | initializer target operator context =>
      rw [step, initializer.eq_def, if_pos hExpression]
      cases target with
      | none => exact hEvaluated context
      | some target =>
          obtain ⟨name, pos⟩ := target
          exact ⟨.initialization name pos (operator.getD node.position) node, context, rfl,
            by rw [ofNode_eq node .lambdas, step]⟩
  | evaluated context =>
      rw [step, if_pos hExpression]
      exact hEvaluated context
  | returned =>
      rw [step, returned, if_pos hExpression]
      exact hEvaluated _

namespace Recording

open Node

/-- Takes the nodes that wait from the end, one at a time. A lambda is visited, and what is below it
is left to the visit. Of any other node the contents wait, in reverse so that the first is taken
first. -/
def searchLambdas (visit : Node → Recording → Recording) (pending : Array Node) (r : Recording) :
    Recording :=
  match _ : pending.back? with
  | none => r
  | some node =>
    if node.kind = .lambdaExpression then searchLambdas visit pending.pop (visit node r)
    else searchLambdas visit (pending.pop ++ node.contents.reverse) r
termination_by extent pending.toList
decreasing_by
  all_goals
    obtain ⟨waiting, rfl⟩ := Array.back?_eq_some_iff.mp ‹_›
    have hContents := extent_contents_le node
    simp only [Array.pop_push, Array.toList_push, Array.toList_appendList, extent_append,
      extent_reverse, extent_eq]
    omega

/-- Whatever a visit does, the search visits the outermost lambdas below the nodes that wait, those
of the last one first. -/
theorem searchLambdas_eq (visit : Node → Recording → Recording) (pending : Array Node)
    (r : Recording) :
    searchLambdas visit pending r =
      (pending.toList.reverse.flatMap lambdaNodes).foldl (fun r lambda => visit lambda r) r := by
  fun_induction searchLambdas visit pending r with
  | case1 pending r hNone =>
      rw [Array.back?_eq_none_iff.mp hNone]
      rfl
  | case2 pending r node hLast hKind ih =>
      obtain ⟨waiting, rfl⟩ := Array.back?_eq_some_iff.mp hLast
      rw [ih]
      simp [lambdaNodes_of_lambda hKind]
  | case3 pending r node hLast hKind ih =>
      obtain ⟨waiting, rfl⟩ := Array.back?_eq_some_iff.mp hLast
      rw [ih]
      simp [lambdaNodes_of_ne hKind]

/-- Reads the parameters and the body of a lambda in a function scope at its place. -/
def visitLambda (lambda : Node) (r : Recording) : Recording :=
  r.inNewScope .function none (Outline.line lambda) fun inside =>
    inside.followAll (Outline.lambdaContents lambda)

/-- Puts an expression on record in the current scope, and visits the lambdas in it. -/
def pushRoot (seed : Seed) (context : RootContext) (r : Recording) : Recording :=
  searchLambdas visitLambda #[seed.node]
    { r with model := r.model.addRoot ⟨seed.expr, r.current, context⟩ }

/-- Lambdas that are visited one after the other are recorded as a list of entries. -/
theorem foldl_visitLambda (lambdas : List Node) (r : Recording) :
    lambdas.foldl (fun r lambda => visitLambda lambda r) r =
      r.followAll (lambdas.map Outline.lambdaEntry) := by
  induction lambdas generalizing r with
  | nil => rfl
  | cons lambda lambdas ih => exact ih (visitLambda lambda r)

/-- What is recorded is what the outline of the expression says, and the current scope is the one
before. -/
theorem pushRoot_eq (seed : Seed) (context : RootContext) (r : Recording) :
    r.pushRoot seed context = ⟨Model.recordAll r.current r.model
      (.root seed context :: Outline.ofNode seed.node .lambdas), r.current⟩ := by
  rw [pushRoot, searchLambdas_eq, Outline.ofNode_lambdas, ← followAll_eq]
  simp only [List.reverse_singleton, List.flatMap_singleton, foldl_visitLambda]
  rfl

end Recording

namespace Model

/-- A root that was put on record is still there. -/
theorem Extends.root_kept {before after : Model} {root : Root}
    (h : (before.addRoot root).Extends after) : after.roots[before.roots.size]? = some root := by
  obtain ⟨rest, hRoots⟩ := h.roots
  rw [← Array.getElem?_toList, ← hRoots, Model.addRoot, Array.toList_push]
  simp

/-- Between two states of a model a lambda is visited in a scope: a function scope that is created
inside `outer` for the visit, and that keeps what the lambda contributes. -/
structure VisitedIn (start finish : Model) (outer : Nat) (lambda : Node) (id : Nat) : Prop where
  fresh : start.scopes.size ≤ id
  scope : ∃ scope, finish.scopes.get? id = some scope ∧ scope.kind = .function ∧
    scope.name = none ∧ scope.parent = some outer ∧ scope.line = Outline.line lambda
  inside : ∃ before : Model, start.Extends before ∧ before.scopes.size = id ∧
    (recordAll id (before.createScope .function none outer (Outline.line lambda))
      (Outline.lambdaContents lambda)).Extends finish

variable {start later finish : Model} {outer id : Nat} {lambda : Node}

theorem VisitedIn.of_extends (h : VisitedIn later finish outer lambda id)
    (hStart : start.Extends later) : VisitedIn start finish outer lambda id where
  fresh := hStart.size_le.trans h.fresh
  scope := h.scope
  inside := by
    obtain ⟨before, hBefore, hInside⟩ := h.inside
    exact ⟨before, hStart.trans hBefore, hInside⟩

/-- Recording a lambda is a visit of it, in the scope that is created next. -/
theorem visitedIn_record (hOuter : outer < start.scopes.size)
    (hFinish : (record outer start (Outline.lambdaEntry lambda)).Extends finish) :
    VisitedIn start finish outer lambda start.scopes.size where
  fresh := Nat.le_refl _
  scope := by
    have hCreated : (start.createScope .function none outer (Outline.line lambda)).scopes.get?
        start.scopes.size = some _ := ScopeTree.get?_create_size
    have hInside := extends_recordAll start.scopes.size
      (start.createScope .function none outer (Outline.line lambda)) (Outline.lambdaContents lambda)
    obtain ⟨more, hKept⟩ := (hInside.trans hFinish).scopes hCreated
    exact ⟨_, hKept, rfl, rfl, by simp [hOuter], rfl⟩
  inside := ⟨start, .refl start, rfl, hFinish⟩

/-- A visit creates at least the scope of the lambda. -/
theorem size_lt_record (hOuter : outer < start.scopes.size) (lambda : Node) :
    start.scopes.size < (record outer start (Outline.lambdaEntry lambda)).scopes.size := by
  have hVisited : VisitedIn start _ outer lambda start.scopes.size :=
    visitedIn_record hOuter (.refl _)
  obtain ⟨scope, hGet, -⟩ := hVisited.scope
  exact ScopeTree.lt_size_of_get? hGet

/-- Lambdas that are recorded one after the other are visited in scopes that are created one after
the other. -/
theorem exists_visitedIn (lambdas : List Node) (hOuter : outer < start.scopes.size)
    (hFinish : (recordAll outer start (lambdas.map Outline.lambdaEntry)).Extends finish) :
    ∃ ids : List Nat, (∀ id ∈ ids, start.scopes.size ≤ id) ∧ ids.Pairwise (· < ·) ∧
      List.Forall₂ (VisitedIn start finish outer) lambdas ids := by
  induction lambdas generalizing start with
  | nil => exact ⟨[], List.forall_mem_nil _, .nil, .nil⟩
  | cons lambda lambdas ih =>
      have hNext := extends_record outer start (Outline.lambdaEntry lambda)
      have hRest := extends_recordAll outer (record outer start (Outline.lambdaEntry lambda))
        (lambdas.map Outline.lambdaEntry)
      have hNewer := size_lt_record hOuter lambda
      obtain ⟨ids, hLater, hOrder, hVisited⟩ := ih (hNext.lt_size hOuter) hFinish
      refine ⟨start.scopes.size :: ids, ?_, ?_, .cons ?_ ?_⟩
      · exact List.forall_mem_cons.mpr
          ⟨Nat.le_refl _, fun id hId => hNext.size_le.trans (hLater id hId)⟩
      · exact hOrder.cons fun id hId => Nat.lt_of_lt_of_le hNewer (hLater id hId)
      · exact visitedIn_record hOuter (hRest.trans hFinish)
      · exact hVisited.imp fun _ _ h => h.of_extends hNext

end Model

namespace Recording

open Node
open Model (nodeOf)

/-- The outermost lambdas in a node, and no others, are visited once each in preorder, whatever a
visit does. Each of them is visited in a new function scope inside the current one. -/
structure LambdasVisited (node : Node) (r : Recording) (finish : Model)
    (places : List (List Nat × Node)) (scopes : List Nat) : Prop where
  outermost : ∀ path lambda, (path, lambda) ∈ places ↔ node.OutermostLambda path lambda
  inOrder : places.Pairwise fun first second => List.Lex (· < ·) first.1 second.1
  search : ∀ (visit : Node → Recording → Recording) (start : Recording),
    searchLambdas visit #[node] start = places.foldl (fun r place => visit place.2 r) start
  newer : scopes.Pairwise (· < ·)
  visited : List.Forall₂
    (fun place id => Model.VisitedIn r.model finish r.current place.2 id) places scopes

/-- An expression that is evaluated in a role is put on record in the current scope, and the lambdas
in it are visited. The current scope is the one before at the end, when what the outline of the
expression says is on record. -/
def EvaluatesLambdas (node : Node) (role : Role) (r : Recording) : Prop :=
  ∃ seed context, seed.node = node ∧
    r.pushRoot seed context =
      ⟨Model.recordAll r.current r.model (Outline.ofNode node role), r.current⟩ ∧
    (r.pushRoot seed context).model.roots[r.model.roots.size]? =
      some ⟨seed.expr, r.current, context⟩ ∧
    ∃ places scopes, LambdasVisited node r (r.pushRoot seed context).model places scopes

/-- Whatever scope is the current one, the search for lambdas in an expression visits the outermost
ones. -/
theorem pushRoot_visits {node : Node} (hExpression : node.kind.isExpression = true) {role : Role}
    (hRole : role.evaluates = true) {r : Recording} (hCurrent : r.current < r.model.scopes.size) :
    EvaluatesLambdas node role r := by
  obtain ⟨seed, context, rfl, hOutline⟩ := Outline.ofNode_of_evaluates hExpression hRole
  have hRoot := Model.Extends.addRoot r.model ⟨seed.expr, r.current, context⟩
  have hFinish : (Model.recordAll r.current (r.model.addRoot ⟨seed.expr, r.current, context⟩)
      (seed.node.lambdaNodes.map Outline.lambdaEntry)).Extends
        (r.pushRoot seed context).model := by
    rw [pushRoot_eq, Outline.ofNode_lambdas]
    exact .refl _
  obtain ⟨scopes, -, hNewer, hVisited⟩ :=
    Model.exists_visitedIn seed.node.lambdaNodes (hRoot.lt_size hCurrent) hFinish
  refine ⟨seed, context, rfl, ?_, ?_, seed.node.outermostLambdas, scopes, ?_⟩
  · rw [pushRoot_eq, hOutline]
  · exact ((Model.extends_recordAll _ _ _).trans hFinish).root_kept
  · exact {
      outermost := fun _ _ => mem_outermostLambdas
      inOrder := pairwise_outermostLambdas seed.node
      search := fun visit start => by
        rw [searchLambdas_eq]
        simp [lambdaNodes, List.foldl_map]
      newer := hNewer
      visited := (List.forall₂_map_left_iff.mp hVisited).imp fun _ _ h => h.of_extends hRoot }

/-- The lambda `[] { f(...); }` whose body calls a function with some arguments. -/
def lambdaCalling (arguments : List Node) : Node :=
  nodeOf .lambdaExpression none "[] \x7b f(...); \x7d"
    [nodeOf .compoundStatement (some .body) "\x7b f(...); \x7d"
      [nodeOf (.other "expression_statement") none "f(...);"
        [nodeOf .callExpression none "f(...)"
          [nodeOf .identifier (some .function) "f" [],
            nodeOf (.other "argument_list") (some .arguments) "(...)" arguments]]]]

/-- A call with two lambdas among its arguments, of which the first has one in its body and the
second is inside parentheses. -/
def callWithLambdas : Node :=
  nodeOf .callExpression none "g(...)"
    [nodeOf .identifier (some .function) "g" [],
      nodeOf (.other "argument_list") (some .arguments) "(...)"
        [lambdaCalling [lambdaCalling []],
          nodeOf .parenthesizedExpression none "(...)" [lambdaCalling []]]]

/-- The scope of the lambda in the middle is created before that of the last one, and inside that of
the first. -/
theorem pushRoot_visits_callWithLambdas :
    callWithLambdas.kind.isExpression = true ∧ Role.evaluates .item = true ∧
      Model.globalScope < Model.initial.scopes.size ∧
      EvaluatesLambdas callWithLambdas .item ⟨Model.initial, Model.globalScope⟩ ∧
      ((Model.recordAll Model.globalScope Model.initial
        (Outline.ofNode callWithLambdas .item)).scopes.scopes.toList.map Scope.parent) =
          [none, some 0, some 1, some 0] := by
  have hGlobal : Model.globalScope < Model.initial.scopes.size := by decide
  exact ⟨rfl, rfl, hGlobal, pushRoot_visits rfl rfl hGlobal, by decide +kernel⟩

end Recording

end TruthLint
