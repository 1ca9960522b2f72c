import TruthLint.Proofs.Expr.Mirror
import TruthLint.Proofs.Expr.Operands

/-! Expressions of which the deepest parts were not read. A node that is read with less room has
the same expression, except that parts of it are cut off. What a rule makes of an operator can then
only get lost, since the class of an operand either stays or becomes unknown. -/

namespace TruthLint

namespace Expr

open Cst

/-- The first expression is the second one with some parts, at any depth, cut off. What is left of
a part that is cut off may stand elsewhere, since parentheses have a place but no expression. -/
inductive Truncated : Expr → Expr → Prop where
  | cut (pos : Position) (e : Expr) : Truncated (.other pos []) e
  | keep {e e' : Expr} (parts : Alike Truncated e e') : Truncated e e'

namespace Truncated

/-- Less room cuts more off. -/
theorem ofNodeWithin {less more : Nat} (h : less ≤ more) (node : Node) :
    (Expr.ofNodeWithin less node).Truncated (Expr.ofNodeWithin more node) := by
  induction less generalizing more node with
  | zero => exact .cut _ _
  | succ less ih =>
      obtain ⟨more, rfl⟩ := Nat.exists_eq_succ_of_ne_zero (Nat.ne_zero_of_lt h)
      exact ofNodeWith_related (fun _ _ => .keep) fun child _ => ih (Nat.le_of_succ_le_succ h) child

variable {e e' : Expr}

theorem stripNot (h : e.Truncated e') : e.stripNot.Truncated e'.stripNot := by
  have hSelf := h
  cases h with
  | cut pos e => exact .cut pos _
  | keep parts =>
      cases parts with
      | unary pos op part =>
          cases op with
          | not => exact part
          | _ => exact hSelf
      | _ => exact hSelf

/-- A name in a truncated expression was there before; it may have been cut off. -/
theorem variableName? (h : e.Truncated e') :
    e.variableName? = none ∨ e.variableName? = e'.variableName? := by
  cases h with
  | cut pos e => exact .inl rfl
  | keep parts => exact .inr (by cases parts <;> rfl)

theorem callee? (h : e.Truncated e') : e.callee? = none ∨ e.callee? = e'.callee? := by
  cases h with
  | cut pos e => exact .inl rfl
  | keep parts => exact .inr (by cases parts <;> rfl)

/-- An expression keeps its class unless it is cut off itself. -/
theorem classify (h : e.Truncated e') (model : Model) (scope : Nat) :
    model.classify scope e = .other ∨ model.classify scope e = model.classify scope e' := by
  cases h with
  | cut pos e => exact .inl rfl
  | keep parts =>
      refine .inr ?_
      cases parts with
      | literal pos value => rfl
      | unary pos op part => cases op <;> rfl
      | cast pos toBool part => cases toBool <;> rfl
      | _ => rfl

/-- So what is found to be a boolean variable was one before. -/
theorem isSome_boolVariable? (h : e.Truncated e') (model : Model) (scope : Nat)
    (hVariable : (model.boolVariable? scope e).isSome) :
    (model.boolVariable? scope e').isSome := by
  unfold Model.boolVariable? at hVariable ⊢
  rcases h.stripNot.variableName? with hCut | hSame
  · simp [hCut] at hVariable
  · rwa [hSame] at hVariable

/-- A call keeps its callee, but not its operands. -/
theorem isSome_boolCall? (h : e.Truncated e') (model : Model) (scope : Nat)
    (hCall : (model.boolCall? scope e).isSome) : (model.boolCall? scope e').isSome := by
  rw [Model.isSome_boolCall?] at hCall ⊢
  rcases h.stripNot.callee? with hCut | hSame
  · simp [hCut] at hCall
  · rwa [hSame] at hCall

end Truncated

end Expr

/-- What is made of the calls in an expression is made of them, in the same order, where less is
cut off, if it does not depend on what was cut off. -/
theorem Visitor.sublist_filterMap_visits {β : Type} {g g' : Site × Expr → Option β}
    (hg : ∀ site e e', e.Truncated e' → ∀ b, g (site, e) = some b → g' (site, e') = some b)
    {e e' : Expr} (h : e.Truncated e') (site : Site) :
    ((visits site e).filterMap g).Sublist ((visits site e').filterMap g') := by
  induction e using Expr.children_induction generalizing e' site with
  | h e ih =>
      have hSelf (site : Site) :
          ([(site, e)].filterMap g).Sublist ([(site, e')].filterMap g') := by
        cases hFound : g (site, e) with
        | none => simp [hFound]
        | some b => simp [hFound, hg site e e' h b hFound]
      cases h with
      | cut pos e => exact List.nil_sublist _
      | keep parts =>
          refine visits_alike
            (S := fun calls calls' => (calls.filterMap g).Sublist (calls'.filterMap g'))
            (.refl _) (fun hFirst hSecond => ?_) parts hSelf
            (fun child hChild child' hCut site => ih child hChild hCut site) site
          rw [List.filterMap_append, List.filterMap_append]
          exact hFirst.append hSecond

end TruthLint
