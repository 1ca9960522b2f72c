import TruthLint.Rule.Basic

/-! Walks as calls in a fixed order. Which expressions a visitor is called for, and at which site,
does not depend on the visitor: it sees them one after the other until it ends the walk. A rule
that judges one expression at a time therefore finds what it finds at each of them. -/

namespace TruthLint

namespace Flow

variable {σ : Type}

theorem andThen_assoc (flow : Flow σ) (f g : σ → Flow σ) :
    (flow.andThen f).andThen g = flow.andThen fun state => (f state).andThen g := by
  cases flow <;> rfl

end Flow

namespace Visitor

variable {σ : Type}

mutual

/-- The sites and expressions for which a visitor of an expression is called, in order. -/
def visits (site : Site) : Expr → List (Site × Expr)
  | .literal _ _ | .var _ _ => []
  | .call pos callee operands => (site, .call pos callee operands) :: visitsAll site operands
  | .unary pos op operand => (site, .unary pos op operand) :: visits site operand
  | .binary pos op left right =>
    (site, .binary pos op left right) :: (visits site left ++ visits site right)
  | .assign pos compound target value =>
    (site, .assign pos compound target value) :: (visits site target ++ visits site value)
  | .cast _ _ operand => visits site operand
  | .member _ object _ => visits site object
  | .conditional _ condition consequence alternative =>
    visits { site with inCondition := true } condition ++
      (visits site consequence ++ visits site alternative)
  | .shortConditional _ condition alternative =>
    visits { site with inCondition := true } condition ++ visits site alternative
  | .other _ parts => visitsAll site parts

def visitsAll (site : Site) : List Expr → List (Site × Expr)
  | [] => []
  | e :: es => visits site e ++ visitsAll site es

end

/-- The calls in the roots of a model. -/
def visitsOfRoots (roots : List Root) : List (Site × Expr) :=
  roots.flatMap fun root => visits ⟨root.scope, root.context = .condition⟩ root.expr

/-- Calls a visitor again and again until it ends the walk. -/
def through (v : Visitor σ) : List (Site × Expr) → σ → Flow σ
  | [], state => .next state
  | (site, e) :: rest, state => (v site e state).andThen (through v rest)

/-- A visit that was not stopped goes on with the calls that are left. -/
theorem through_append (v : Visitor σ) (first second : List (Site × Expr)) (state : σ) :
    through v (first ++ second) state = (through v first state).andThen (through v second) := by
  induction first generalizing state with
  | nil => rfl
  | cons visit first ih =>
      obtain ⟨site, e⟩ := visit
      rw [List.cons_append, through, through, Flow.andThen_assoc]
      congr 1
      funext state
      exact ih state

mutual

/-- A walk is a sequence of calls, whichever of them ends it. -/
theorem walk_eq_through (v : Visitor σ) (site : Site) :
    ∀ (e : Expr) (state : σ), walk v site e state = through v (visits site e) state
  | .literal _ _, _ | .var _ _, _ => by simp [walk, visits, through]
  | .call _ _ operands, state => by
      simp only [walk, visits, through]
      congr 1
      funext state
      exact walkAll_eq_through v site operands state
  | .unary _ _ operand, state => by
      simp only [walk, visits, through]
      congr 1
      funext state
      exact walk_eq_through v site operand state
  | .binary _ _ left right, state => by
      simp only [walk, visits, through, Flow.andThen_assoc]
      congr 1
      funext state
      rw [walk_eq_through v site left state, through_append]
      congr 1
      funext state
      exact walk_eq_through v site right state
  | .assign _ _ target value, state => by
      simp only [walk, visits, through, Flow.andThen_assoc]
      congr 1
      funext state
      rw [walk_eq_through v site target state, through_append]
      congr 1
      funext state
      exact walk_eq_through v site value state
  | .cast _ _ operand, state => walk_eq_through v site operand state
  | .member _ object _, state => walk_eq_through v site object state
  | .conditional _ condition consequence alternative, state => by
      rw [walk, visits, through_append, Flow.andThen_assoc, walk_eq_through v _ condition state]
      congr 1
      funext state
      rw [walk_eq_through v site consequence state, through_append]
      congr 1
      funext state
      exact walk_eq_through v site alternative state
  | .shortConditional _ condition alternative, state => by
      rw [walk, visits, through_append, walk_eq_through v _ condition state]
      congr 1
      funext state
      exact walk_eq_through v site alternative state
  | .other _ parts, state => walkAll_eq_through v site parts state

theorem walkAll_eq_through (v : Visitor σ) (site : Site) :
    ∀ (es : List Expr) (state : σ), walkAll v site es state = through v (visitsAll site es) state
  | [], _ => rfl
  | e :: es, state => by
      rw [walkAll, visitsAll, through_append, walk_eq_through v site e state]
      congr 1
      funext state
      exact walkAll_eq_through v site es state

end

/-- A walk over roots is a pass through their visits. -/
theorem walkRoots_eq_through (v : Visitor σ) (roots : List Root) (state : σ) :
    walkRoots v roots state = through v (visitsOfRoots roots) state := by
  induction roots generalizing state with
  | nil => rfl
  | cons root roots ih =>
      rw [walkRoots, visitsOfRoots, List.flatMap_cons, through_append, walk_eq_through]
      congr 1
      funext state
      exact ih state

end Visitor

namespace ExprRule

/-- What a rule finds in a sequence of calls. -/
def findingsIn (rule : ExprRule) (model : Model) (calls : List (Site × Expr)) : List Finding :=
  calls.filterMap fun call => rule.finding? model call.1 call.2

theorem through_collect (rule : ExprRule) (model : Model) (calls : List (Site × Expr))
    (found : Array Finding) :
    Visitor.through (rule.collect model) calls found =
      .next (found ++ (rule.findingsIn model calls).toArray) := by
  induction calls generalizing found with
  | nil => simp [Visitor.through, findingsIn]
  | cons call calls ih =>
      obtain ⟨site, e⟩ := call
      rw [Visitor.through, collect, Flow.andThen, ih, findingsIn, findingsIn, List.filterMap_cons]
      cases rule.finding? model site e <;> simp

/-- A rule does not end the walk: it finds what it finds at each call on its own. -/
theorem findings_eq (rule : ExprRule) (model : Model) :
    rule.findings model = rule.findingsIn model (Visitor.visitsOfRoots model.roots.toList) := by
  rw [findings, Visitor.walkModel, Visitor.walkRoots_eq_through, through_collect]
  simp [Flow.state]

end ExprRule

end TruthLint
