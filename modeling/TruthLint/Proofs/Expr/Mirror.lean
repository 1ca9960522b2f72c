import Mathlib.Data.List.Perm.Basic
import TruthLint.Proofs.Expr.Alike

/-! Mirrored comparisons. A comparison means the same with its operands exchanged and its operator
mirrored. Whichever comparisons of an expression are mirrored, it keeps its class and its shape
apart from them, and a visitor is called for the same things in another order. -/

namespace TruthLint

namespace Expr

/-- The second expression is the first one with some of its comparisons mirrored, at any depth. -/
inductive Mirrored : Expr → Expr → Prop where
  | literal (pos : Position) (value : Literal) : Mirrored (.literal pos value) (.literal pos value)
  | var (pos : Position) (name : String) : Mirrored (.var pos name) (.var pos name)
  | call (pos : Position) (callee : Callee) {operands operands' : List Expr}
      (parts : List.Forall₂ Mirrored operands operands') :
      Mirrored (.call pos callee operands) (.call pos callee operands')
  | unary (pos : Position) (op : UnaryOp) {operand operand' : Expr}
      (part : Mirrored operand operand') : Mirrored (.unary pos op operand) (.unary pos op operand')
  | binary (pos : Position) (op : BinaryOp) {left left' right right' : Expr}
      (first : Mirrored left left') (second : Mirrored right right') :
      Mirrored (.binary pos op left right) (.binary pos op left' right')
  /-- A comparison that is mirrored itself, with its operands. -/
  | swap (pos : Position) (op : BinaryOp) {left left' right right' : Expr}
      (comparison : op.isComparison) (first : Mirrored left left')
      (second : Mirrored right right') :
      Mirrored (.binary pos op left right) (.binary pos op.mirrored right' left')
  | assign (pos : Position) (compound : Bool) {target target' value value' : Expr}
      (first : Mirrored target target') (second : Mirrored value value') :
      Mirrored (.assign pos compound target value) (.assign pos compound target' value')
  | cast (pos : Position) (toBool : Bool) {operand operand' : Expr}
      (part : Mirrored operand operand') :
      Mirrored (.cast pos toBool operand) (.cast pos toBool operand')
  | member (pos : Position) {object object' : Expr} (name : String)
      (part : Mirrored object object') :
      Mirrored (.member pos object name) (.member pos object' name)
  | conditional (pos : Position)
      {condition condition' consequence consequence' alternative alternative' : Expr}
      (first : Mirrored condition condition') (second : Mirrored consequence consequence')
      (third : Mirrored alternative alternative') :
      Mirrored (.conditional pos condition consequence alternative)
        (.conditional pos condition' consequence' alternative')
  | shortConditional (pos : Position) {condition condition' alternative alternative' : Expr}
      (first : Mirrored condition condition') (second : Mirrored alternative alternative') :
      Mirrored (.shortConditional pos condition alternative)
        (.shortConditional pos condition' alternative')
  | other (pos : Position) {parts parts' : List Expr}
      (inner : List.Forall₂ Mirrored parts parts') : Mirrored (.other pos parts) (.other pos parts')

namespace Mirrored

variable {e e' : Expr}

/-- But for a comparison that is mirrored itself, the heads stay as they are. -/
theorem alike_or_swap (h : e.Mirrored e') :
    Alike Mirrored e e' ∨ ∃ pos op left left' right right', op.isComparison = true ∧
      left.Mirrored left' ∧ right.Mirrored right' ∧
      e = .binary pos op left right ∧ e' = .binary pos op.mirrored right' left' := by
  cases h with
  | swap pos op comparison first second =>
      exact .inr ⟨pos, op, _, _, _, _, comparison, first, second, rfl, rfl⟩
  | literal pos value => exact .inl (.literal pos value)
  | var pos name => exact .inl (.var pos name)
  | call pos callee parts => exact .inl (.call pos callee parts)
  | unary pos op part => exact .inl (.unary pos op part)
  | binary pos op first second => exact .inl (.binary pos op first second)
  | assign pos compound first second => exact .inl (.assign pos compound first second)
  | cast pos toBool part => exact .inl (.cast pos toBool part)
  | member pos name part => exact .inl (.member pos name part)
  | conditional pos first second third => exact .inl (.conditional pos first second third)
  | shortConditional pos first second => exact .inl (.shortConditional pos first second)
  | other pos inner => exact .inl (.other pos inner)

theorem variableName? (h : e.Mirrored e') : e'.variableName? = e.variableName? := by
  cases h <;> rfl

/-- A mirrored call has the same callee; only its arguments may have been mirrored. -/
theorem callee? (h : e.Mirrored e') : e'.callee? = e.callee? := by
  cases h <;> rfl

/-- Negations are stripped from both sides alike. -/
theorem stripNot (h : e.Mirrored e') : e.stripNot.Mirrored e'.stripNot := by
  have hSelf := h
  cases h with
  | unary pos op part =>
      cases op with
      | not => exact part
      | _ => exact hSelf
  | _ => exact hSelf

end Mirrored

end Expr

/-- Roots that stand in the same place, with mirrored comparisons. -/
structure Root.Mirrored (root root' : Root) : Prop where
  expr : root.expr.Mirrored root'.expr
  scope : root'.scope = root.scope
  context : root'.context = root.context

/-- Models that differ only in mirrored comparisons. -/
structure Model.Mirrored (model model' : Model) : Prop where
  scopes : model'.scopes = model.scopes
  symbols : model'.symbols = model.symbols
  roots : List.Forall₂ Root.Mirrored model.roots.toList model'.roots.toList

/-- Whether a call returns a boolean is decided by its callee, and its arguments have no part in it.
-/
theorem Model.isSome_boolCall? (model : Model) (scope : Nat) (e : Expr) :
    (model.boolCall? scope e).isSome = e.stripNot.callee?.any (model.returnsBool · scope) := by
  unfold boolCall?
  cases e.stripNot with
  | call pos callee operands =>
      rw [Expr.callee?, Option.any_some]
      cases hReturns : model.returnsBool callee scope <;> simp [hReturns]
  | _ => rfl

namespace Model.Mirrored

variable {model model' : Model} {e e' : Expr}

/-- Mirroring concerns roots only, so that names are resolved as before. -/
theorem variableType (h : model.Mirrored model') : model'.variableType = model.variableType := by
  funext name scope
  rw [Model.variableType, Model.variableType, h.scopes, h.symbols]

theorem returnsBool (h : model.Mirrored model') : model'.returnsBool = model.returnsBool := by
  funext callee scope
  rw [Model.returnsBool, Model.returnsBool, Model.resolve?, Model.resolve?, h.scopes, h.symbols]

/-- A comparison is boolean whichever way around it stands. -/
theorem classify (h : model.Mirrored model') (hExpr : e.Mirrored e') (scope : Nat) :
    model'.classify scope e' = model.classify scope e := by
  cases hExpr with
  | literal pos value => cases value <;> rfl
  | var pos name => simp only [Model.classify, h.variableType]
  | call pos callee parts => simp only [Model.classify, h.returnsBool]
  | unary pos op part => cases op <;> rfl
  | swap pos op comparison first second => simp [Model.classify, comparison]
  | cast pos toBool part => cases toBool <;> rfl
  | _ => rfl

/-- A variable is boolean in the mirrored model exactly if it is in the model. -/
theorem boolVariable? (h : model.Mirrored model') (hExpr : e.Mirrored e') (scope : Nat) :
    model'.boolVariable? scope e' = model.boolVariable? scope e := by
  rw [Model.boolVariable?, Model.boolVariable?, hExpr.stripNot.variableName?, h.variableType]

/-- The call keeps its callee, but not its operands. -/
theorem isSome_boolCall? (h : model.Mirrored model') (hExpr : e.Mirrored e') (scope : Nat) :
    (model'.boolCall? scope e').isSome = (model.boolCall? scope e).isSome := by
  rw [Model.isSome_boolCall?, Model.isSome_boolCall?, hExpr.stripNot.callee?, h.returnsBool]

end Model.Mirrored

namespace Visitor

variable {β : Type} {g g' : Site × Expr → Option β}

/-- Two groups of calls give the same findings up to order if each of them does. -/
theorem perm_filterMap_append {calls calls' others others' : List (Site × Expr)}
    (hCalls : (calls'.filterMap g').Perm (calls.filterMap g))
    (hOthers : (others'.filterMap g').Perm (others.filterMap g)) :
    ((calls' ++ others').filterMap g').Perm ((calls ++ others).filterMap g) := by
  rw [List.filterMap_append, List.filterMap_append]
  exact hCalls.append hOthers

/-- What is made of each call on its own, regardless of mirrored comparisons, is made of the calls
in a mirrored expression, though in another order. -/
theorem perm_filterMap_visits
    (hg : ∀ site e e', e.Mirrored e' → g' (site, e') = g (site, e)) {e e' : Expr}
    (h : e.Mirrored e') (site : Site) :
    ((visits site e').filterMap g').Perm ((visits site e).filterMap g) := by
  induction e using Expr.children_induction generalizing e' site with
  | h e ih =>
      have hSelf (site : Site) : ([(site, e')].filterMap g').Perm ([(site, e)].filterMap g) := by
        rw [List.filterMap_cons, List.filterMap_cons, hg site e e' h]
        exact .refl _
      rcases h.alike_or_swap with hAlike | ⟨pos, op, left, left', right, right', -, hLeft, hRight,
        rfl, rfl⟩
      · exact visits_alike (S := fun calls calls' => (calls'.filterMap g').Perm (calls.filterMap g))
          (.refl _) perm_filterMap_append hAlike hSelf
          (fun child hChild child' hMirrored site => ih child hChild hMirrored site) site
      · have hOperands : ((visits site right' ++ visits site left').filterMap g').Perm
            ((visits site left ++ visits site right).filterMap g) := by
          rw [List.filterMap_append, List.filterMap_append]
          refine List.perm_append_comm.trans (List.Perm.append ?_ ?_)
          · exact ih _ (by simp [Expr.children]) hLeft site
          · exact ih _ (by simp [Expr.children]) hRight site
        exact perm_filterMap_append (hSelf site) hOperands

/-- A rule that does not tell mirrored expressions apart finds the same in mirrored roots, up to
order. -/
theorem perm_filterMap_visitsOfRoots
    (hg : ∀ site e e', e.Mirrored e' → g' (site, e') = g (site, e)) {roots roots' : List Root}
    (h : List.Forall₂ Root.Mirrored roots roots') :
    ((visitsOfRoots roots').filterMap g').Perm ((visitsOfRoots roots).filterMap g) := by
  induction h with
  | nil => exact .refl _
  | cons hRoot hRoots ih =>
      rw [visitsOfRoots, visitsOfRoots, List.flatMap_cons, List.flatMap_cons, hRoot.scope,
        hRoot.context]
      exact perm_filterMap_append (perm_filterMap_visits hg hRoot.expr _) ih

end Visitor

end TruthLint
