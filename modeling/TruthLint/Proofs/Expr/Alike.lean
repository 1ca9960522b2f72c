import Mathlib.Data.List.Forall2
import TruthLint.Proofs.Expr.Induction
import TruthLint.Proofs.Visit.Preorder

/-! Expressions with the same head. Relations between expressions that go through all their parts
are put together from one step: the heads agree, and the parts are related one by one. -/

namespace TruthLint

/-- The expressions agree but for their direct parts, which are related in pairs. -/
inductive Expr.Alike (R : Expr → Expr → Prop) : Expr → Expr → Prop where
  | literal (pos : Position) (value : Literal) : Alike R (.literal pos value) (.literal pos value)
  | var (pos : Position) (name : String) : Alike R (.var pos name) (.var pos name)
  | call (pos : Position) (callee : Callee) {operands operands' : List Expr}
      (parts : List.Forall₂ R operands operands') :
      Alike R (.call pos callee operands) (.call pos callee operands')
  | unary (pos : Position) (op : UnaryOp) {operand operand' : Expr} (part : R operand operand') :
      Alike R (.unary pos op operand) (.unary pos op operand')
  | binary (pos : Position) (op : BinaryOp) {left left' right right' : Expr}
      (first : R left left') (second : R right right') :
      Alike R (.binary pos op left right) (.binary pos op left' right')
  | assign (pos : Position) (compound : Bool) {target target' value value' : Expr}
      (first : R target target') (second : R value value') :
      Alike R (.assign pos compound target value) (.assign pos compound target' value')
  | cast (pos : Position) (toBool : Bool) {operand operand' : Expr} (part : R operand operand') :
      Alike R (.cast pos toBool operand) (.cast pos toBool operand')
  | member (pos : Position) {object object' : Expr} (name : String) (part : R object object') :
      Alike R (.member pos object name) (.member pos object' name)
  | conditional (pos : Position)
      {condition condition' consequence consequence' alternative alternative' : Expr}
      (first : R condition condition') (second : R consequence consequence')
      (third : R alternative alternative') :
      Alike R (.conditional pos condition consequence alternative)
        (.conditional pos condition' consequence' alternative')
  | shortConditional (pos : Position) {condition condition' alternative alternative' : Expr}
      (first : R condition condition') (second : R alternative alternative') :
      Alike R (.shortConditional pos condition alternative)
        (.shortConditional pos condition' alternative')
  | other (pos : Position) {parts parts' : List Expr} (inner : List.Forall₂ R parts parts') :
      Alike R (.other pos parts) (.other pos parts')

namespace Visitor

variable {R : Expr → Expr → Prop} {S : List (Site × Expr) → List (Site × Expr) → Prop}

/-- Visits of a list of parts are related if those of each part are, for any relation that holds of
nothing and is kept by appending. -/
theorem visitsAll_forall₂ (nil : S [] [])
    (append : ∀ {first first' second second'}, S first first' → S second second' →
      S (first ++ second) (first' ++ second'))
    {es es' : List Expr} {site : Site}
    (hParts : ∀ e ∈ es, ∀ e', R e e' → S (visits site e) (visits site e'))
    (h : List.Forall₂ R es es') : S (visitsAll site es) (visitsAll site es') := by
  induction h with
  | nil => exact nil
  | cons hFirst hRest ih =>
      exact append (hParts _ List.mem_cons_self _ hFirst)
        (ih fun e he => hParts e (List.mem_cons_of_mem _ he))

/-- What relates the calls for expressions themselves and for their parts relates all the calls in
expressions with the same head. -/
theorem visits_alike (nil : S [] [])
    (append : ∀ {first first' second second'}, S first first' → S second second' →
      S (first ++ second) (first' ++ second'))
    {e e' : Expr} (h : e.Alike R e') (hSelf : ∀ site, S [(site, e)] [(site, e')])
    (hParts : ∀ child ∈ e.children, ∀ child', R child child' → ∀ site,
      S (visits site child) (visits site child')) (site : Site) :
    S (visits site e) (visits site e') := by
  have operands {es es' : List Expr} (hEq : e.children = es) (hRel : List.Forall₂ R es es') :
      S (visitsAll site es) (visitsAll site es') :=
    visitsAll_forall₂ nil append
      (fun child hChild child' hRelated => hParts child (hEq ▸ hChild) child' hRelated site) hRel
  cases h with
  | literal pos value => exact nil
  | var pos name => exact nil
  | call pos callee parts => exact append (hSelf site) (operands rfl parts)
  | unary pos op part =>
      exact append (hSelf site) (hParts _ (by simp [Expr.children]) _ part site)
  | binary pos op first second | assign pos compound first second =>
      refine append (hSelf site) (append ?_ ?_)
      · exact hParts _ (by simp [Expr.children]) _ first site
      · exact hParts _ (by simp [Expr.children]) _ second site
  | cast pos toBool part | member pos name part =>
      exact hParts _ (by simp [Expr.children]) _ part site
  | conditional pos first second third =>
      refine append ?_ (append ?_ ?_)
      · exact hParts _ (by simp [Expr.children]) _ first _
      · exact hParts _ (by simp [Expr.children]) _ second site
      · exact hParts _ (by simp [Expr.children]) _ third site
  | shortConditional pos first second =>
      refine append ?_ ?_
      · exact hParts _ (by simp [Expr.children]) _ first _
      · exact hParts _ (by simp [Expr.children]) _ second site
  | other pos inner => exact operands rfl inner

end Visitor

end TruthLint
