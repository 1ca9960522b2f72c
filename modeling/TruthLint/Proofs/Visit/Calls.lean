import TruthLint.Proofs.Expr.Path
import TruthLint.Proofs.Visit.Preorder

/-! What a visitor is called for, in terms of the expressions alone. A walk owes one call to each
operator, assignment and call in a model, in preorder, and makes them until one of them ends it. -/

namespace TruthLint

/-- Whether visitors are called for the expression itself. -/
def Expr.isObserved : Expr → Bool
  | call _ _ _ | unary _ _ _ | binary _ _ _ _ | assign _ _ _ _ => true
  | _ => false

/-- The subexpressions for which visitors are called, with their paths, in preorder. -/
def Expr.observed (e : Expr) : List (List Nat × Expr) := e.positions.filter (·.2.isObserved)

/-- The calls that a walk over a root owes. -/
def Root.calls (root : Root) : List (Site × Expr) :=
  root.expr.observed.map fun (path, e) =>
    (⟨root.scope, root.context = .condition ∨ root.expr.InCondition path⟩, e)

/-- The calls that a walk over a model owes. -/
def Model.calls (model : Model) : List (Site × Expr) := model.roots.toList.flatMap Root.calls

/-- An expression is observed before what is inside it, from left to right. -/
theorem Expr.observed_eq (e : Expr) :
    e.observed = (if e.isObserved then [([], e)] else []) ++
      e.children.zipIdx.flatMap fun (child, i) =>
        child.observed.map fun (path, inner) => (i :: path, inner) := by
  rw [observed, positions_eq, List.filter_cons, List.filter_flatMap]
  simp only [List.filter_map]
  split <;> rfl

namespace Visitor

variable {σ : Type}

theorem visitsAll_eq_flatMap (site : Site) (es : List Expr) :
    visitsAll site es = es.zipIdx.flatMap fun (child, _) => visits site child := by
  have hAll : visitsAll site es = es.flatMap (visits site) := by
    induction es with
    | nil => rfl
    | cons e es ih =>
        rw [visitsAll, ih]
        rfl
  rw [hAll]
  conv_lhs => rw [← List.zipIdx_map_fst 0 es, List.flatMap_map]

/-- The calls in an expression are its own, if there is one, and those in its parts. Only the first
part of a conditional stands elsewhere than the whole. -/
theorem visits_eq_children (site : Site) (e : Expr) :
    visits site e = (if e.isObserved then [(site, e)] else []) ++
      e.children.zipIdx.flatMap fun (child, i) =>
        visits { site with inCondition := site.inCondition || (decide (i = 0) && e.isConditional) }
          child := by
  cases e with
  | call pos callee operands | other pos parts =>
      simp [visits, Expr.children, Expr.isObserved, Expr.isConditional, visitsAll_eq_flatMap]
  | _ => simp [visits, Expr.children, Expr.isObserved, Expr.isConditional]

/-- The calls in an expression are one for each of its observed subexpressions. -/
theorem visits_eq_observed (site : Site) (e : Expr) :
    visits site e = e.observed.map fun (path, inner) =>
      ({ site with inCondition := site.inCondition || decide (e.InCondition path) }, inner) := by
  induction e using Expr.children_induction generalizing site with
  | h e ih =>
      rw [visits_eq_children, Expr.observed_eq, List.map_append, List.map_flatMap]
      congr 1
      · simp [apply_ite, Expr.not_inCondition_nil]
      · refine List.flatMap_congr fun (child, i) hMem => ?_
        have hChild : e.children[i]? = some child := List.mem_zipIdx_iff_getElem?.mp hMem
        dsimp only
        rw [ih child (List.mem_of_getElem? hChild), List.map_map]
        refine List.map_congr_left fun (path, inner) _ => ?_
        simp [Expr.inCondition_cons hChild, Bool.or_assoc]

/-- The calls of a model are the visits of its roots. -/
theorem visitsOfRoots_eq_calls (model : Model) :
    visitsOfRoots model.roots.toList = model.calls := by
  refine List.flatMap_congr fun root _ => ?_
  rw [visits_eq_observed, Root.calls]
  refine List.map_congr_left fun (path, e) _ => ?_
  simp

/-- Of the calls that are due, a visitor makes those up to the first that ends the walk. The last
two arguments are its states before and after. -/
inductive Makes (v : Visitor σ) : (due made : List (Site × Expr)) → (before after : σ) → Prop where
  | done (state : σ) : Makes v [] [] state state
  | next {site : Site} {e : Expr} {due made : List (Site × Expr)} {before between after : σ}
      (goesOn : v site e before = .next between) (rest : Makes v due made between after) :
      Makes v ((site, e) :: due) ((site, e) :: made) before after
  | stop {site : Site} {e : Expr} (due : List (Site × Expr)) {before after : σ}
      (ends : v site e before = .stop after) :
      Makes v ((site, e) :: due) [(site, e)] before after

/-- The visitor that also notes what it is called for. -/
def noting (v : Visitor σ) : Visitor (σ × List (Site × Expr)) := fun site e (state, noted) =>
  match v site e state with
  | .next state => .next (state, noted ++ [(site, e)])
  | .stop state => .stop (state, noted ++ [(site, e)])

/-- To note the calls on the side changes nothing, and what is noted is what is made. -/
theorem through_makes (v : Visitor σ) (due noted : List (Site × Expr)) (state : σ) :
    ∃ made, Makes v due made state (through v due state).state ∧
      (through v.noting due (state, noted)).state =
        ((through v due state).state, noted ++ made) := by
  induction due generalizing state noted with
  | nil => exact ⟨[], .done state, by rw [List.append_nil]; rfl⟩
  | cons call due ih =>
      obtain ⟨site, e⟩ := call
      rw [through, through]
      cases hFlow : v site e state with
      | next between =>
          obtain ⟨made, hMade, hNoted⟩ := ih (noted ++ [(site, e)]) between
          have hNoting : v.noting site e (state, noted) =
              .next (between, noted ++ [(site, e)]) := by
            simp only [noting, hFlow]
          refine ⟨(site, e) :: made, .next hFlow hMade, ?_⟩
          rw [hNoting, Flow.andThen, hNoted, List.append_assoc]
          rfl
      | stop after =>
          have hNoting : v.noting site e (state, noted) =
              .stop (after, noted ++ [(site, e)]) := by
            simp only [noting, hFlow]
          refine ⟨[(site, e)], .stop due hFlow, ?_⟩
          rw [hNoting]
          rfl

end Visitor

/-- A walk over a file calls a visitor for each operator, assignment and call of each root, in
preorder and with the site of the expression, until a call ends it, and for nothing else. The
findings of a rule are therefore those at each of these expressions, in that order. -/
theorem SourceFile.walk_makes_calls (file : SourceFile) :
    (∀ {σ : Type} (v : Visitor σ) (state : σ), ∃ made,
      v.Makes file.model.calls made state (v.walkModel file.model state) ∧
        v.noting.walkModel file.model (state, []) = (v.walkModel file.model state, made)) ∧
      ∀ rule : ExprRule, rule.toRule.check file = file.model.calls.filterMap fun (site, e) =>
        (rule.finding? file.model site e).map (rule.diagnostic file.name) := by
  constructor
  · intro σ v state
    obtain ⟨made, hMade, hNoted⟩ := Visitor.through_makes v file.model.calls [] state
    refine ⟨made, ?_, ?_⟩
    · rw [Visitor.walkModel, Visitor.walkRoots_eq_through, Visitor.visitsOfRoots_eq_calls]
      exact hMade
    · rw [Visitor.walkModel, Visitor.walkModel, Visitor.walkRoots_eq_through,
        Visitor.walkRoots_eq_through, Visitor.visitsOfRoots_eq_calls]
      exact hNoted
  · intro rule
    simp only [ExprRule.toRule]
    rw [ExprRule.findings_eq, Visitor.visitsOfRoots_eq_calls, ExprRule.findingsIn,
      List.map_filterMap]

end TruthLint
