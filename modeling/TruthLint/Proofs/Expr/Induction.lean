import TruthLint.Expr.Basic

/-! Induction over expressions along their direct parts, which covers the operands of calls and
the parts of opaque expressions as well. -/

namespace TruthLint.Expr

mutual

/-- What holds of an expression whenever it holds of its direct parts holds of every expression. -/
theorem children_induction {P : Expr → Prop} (h : ∀ e, (∀ child ∈ e.children, P child) → P e) :
    ∀ e, P e
  | .literal _ _ | .var _ _ => h _ (by simp [children])
  | .call _ _ operands => h _ (children_induction_all h operands)
  | .unary _ _ operand | .cast _ _ operand => h _ (by
      simpa [children] using children_induction h operand)
  | .binary _ _ left right => h _ (by
      simpa [children] using ⟨children_induction h left, children_induction h right⟩)
  | .assign _ _ target value => h _ (by
      simpa [children] using ⟨children_induction h target, children_induction h value⟩)
  | .member _ object _ => h _ (by simpa [children] using children_induction h object)
  | .conditional _ condition consequence alternative => h _ (by
      simpa [children] using ⟨children_induction h condition, children_induction h consequence,
        children_induction h alternative⟩)
  | .shortConditional _ condition alternative => h _ (by
      simpa [children] using
        ⟨children_induction h condition, children_induction h alternative⟩)
  | .other _ parts => h _ (children_induction_all h parts)

/-- Induction over the expressions in a list, for which the statement may be used of all their
parts. -/
theorem children_induction_all {P : Expr → Prop}
    (h : ∀ e, (∀ child ∈ e.children, P child) → P e) : ∀ es : List Expr, ∀ e ∈ es, P e
  | [], _, he => absurd he List.not_mem_nil
  | first :: es, e, he => by
      rcases List.mem_cons.mp he with hFirst | hLater
      · exact hFirst ▸ children_induction h first
      · exact children_induction_all h es e hLater

end

end TruthLint.Expr
