import TruthLint.Proofs.Rule.Mirror

/-! When a comparison is reported. Three of the rules go by the operator and the classes of the
operands alone, and the fourth one asks for calls that return a boolean, which are boolean
expressions. -/

namespace TruthLint

/-- Values with which anything may be compared, as far as their class goes. -/
def ValueClass.isUnjudged : ValueClass → Bool
  | boolCast | other => true
  | _ => false

theorem BinaryOp.isComparison_of_isRelational {op : BinaryOp} (h : op.isRelational) :
    op.isComparison := by
  rw [isComparison, h, Bool.or_true]

namespace Model

variable {model : Model} {scope : Nat} {e : Expr}

/-- A call that returns a boolean is a boolean expression, and so is its negation. -/
theorem classify_of_isSome_boolCall? (h : (model.boolCall? scope e).isSome) :
    model.classify scope e = .boolExpr := by
  rw [isSome_boolCall?] at h
  cases e with
  | call pos callee operands => exact if_pos h
  | unary pos op operand =>
      cases op with
      | not => rfl
      | _ => cases h
  | _ => cases h

/-- Only a name can stand for a boolean variable. -/
theorem classify_eq_boolVariable_iff : model.classify scope e = .boolVariable ↔
    ∃ pos name, e = .var pos name ∧ model.variableType name scope = .boolean := by
  cases e with
  | literal pos value => cases value <;> simp [classify]
  | var pos name =>
      cases h : model.variableType name scope <;> simp [classify, h, ValueClass.ofVariable]
  | call pos callee operands => cases h : model.returnsBool callee scope <;> simp [classify, h]
  | unary pos op operand => cases op <;> simp [classify]
  | binary pos op left right =>
      cases h : op.isLogical || op.isComparison <;> simp [classify, h]
  | cast pos toBool operand => cases toBool <;> simp [classify]
  | _ => simp [classify]

end Model

namespace ExprRule

variable {model : Model} {site : Site} {pos : Position} {op : BinaryOp} {left right : Expr}

/-- Next to a boolean expression, a value that is not judged gives no message. -/
theorem exprWithInt?_of_isUnjudged {value : ValueClass} (h : value.isUnjudged) (op : BinaryOp) :
    exprWithInt? op value = none := by
  cases value <;> first | rfl | cases h

/-- A boolean is compared with an integer only where both values are judged. -/
theorem BoolWithInt.of?_of_isUnjudged {boolean value : ValueClass}
    (h : boolean.isUnjudged ∨ value.isUnjudged) (op : BinaryOp) : of? op boolean value = none := by
  rcases h with hBoolean | hValue
  · cases boolean <;> first | rfl | cases hBoolean
  · cases value <;> first | cases boolean <;> rfl | cases hValue

/-- Two boolean expressions may be compared. -/
theorem exprWithInt?_boolExpr (op : BinaryOp) : exprWithInt? op .boolExpr = none := rfl

/-- A comparison is reported if one side is a boolean expression and the other side a value that it
cannot be compared with. For a boolean expression on the right the operator is read from there. -/
theorem isSome_boolExpressionWithInt :
    (boolExpressionWithInt.finding? model site (.binary pos op left right)).isSome ↔
      op.isComparison ∧
        (model.classify site.scope left = .boolExpr ∧
            (exprWithInt? op (model.classify site.scope right)).isSome ∨
          model.classify site.scope right = .boolExpr ∧
            (exprWithInt? op.mirrored (model.classify site.scope left)).isSome) := by
  simp only [boolExpressionWithInt]
  cases op.isComparison with
  | false => simp
  | true =>
      cases model.classify site.scope left <;> cases model.classify site.scope right <;>
        simp [Option.isSome_bind, exprWithInt?_boolExpr]

/-- A comparison is reported if its sides, in one order or the other, are a boolean and an integer.
-/
theorem isSome_boolWithInt :
    (boolWithInt.finding? model site (.binary pos op left right)).isSome ↔
      op.isComparison ∧
        ((BoolWithInt.of? op (model.classify site.scope left)
            (model.classify site.scope right)).isSome ∨
          (BoolWithInt.of? op (model.classify site.scope right)
            (model.classify site.scope left)).isSome) := by
  simp only [boolWithInt]
  cases op.isComparison with
  | false => simp
  | true =>
      cases BoolWithInt.of? op (model.classify site.scope left)
        (model.classify site.scope right) <;>
      cases BoolWithInt.of? op (model.classify site.scope right)
        (model.classify site.scope left) <;> simp

/-- An ordering is reported if a side of it calls a function that returns a boolean. -/
theorem isSome_functionReturningBool :
    (functionReturningBool.finding? model site (.binary pos op left right)).isSome ↔
      op.isRelational ∧ ((model.boolCall? site.scope left).isSome ∨
        (model.boolCall? site.scope right).isSome) := by
  simp only [functionReturningBool]
  cases op.isRelational with
  | false => simp
  | true =>
      cases model.boolCall? site.scope left <;> cases model.boolCall? site.scope right <;> simp

/-- An ordering is reported if both sides are boolean variables. -/
theorem isSome_boolWithBool :
    (boolWithBool.finding? model site (.binary pos op left right)).isSome ↔
      op.isRelational ∧ model.classify site.scope left = .boolVariable ∧
        model.classify site.scope right = .boolVariable := by
  rw [Model.classify_eq_boolVariable_iff, Model.classify_eq_boolVariable_iff]
  cases left with
  | var leftPos left =>
      cases right with
      | var rightPos right =>
          simp [boolWithBool, Option.isSome_iff_exists, Option.bind_eq_some_iff]
      | _ => simp [boolWithBool]
  | _ => simp [boolWithBool]

theorem boolExpressionWithInt_eq_none (h : (model.classify site.scope left).isUnjudged ∨
      (model.classify site.scope right).isUnjudged) (pos : Position) (op : BinaryOp) :
    boolExpressionWithInt.finding? model site (.binary pos op left right) = none := by
  rw [← Option.not_isSome_iff_eq_none, isSome_boolExpressionWithInt]
  rintro ⟨-, ⟨hExpr, hFound⟩ | ⟨hExpr, hFound⟩⟩
  · have hOther := h.resolve_left (by simp [hExpr, ValueClass.isUnjudged])
    simp [exprWithInt?_of_isUnjudged hOther] at hFound
  · have hOther := h.resolve_right (by simp [hExpr, ValueClass.isUnjudged])
    simp [exprWithInt?_of_isUnjudged hOther] at hFound

theorem boolWithInt_eq_none (h : (model.classify site.scope left).isUnjudged ∨
      (model.classify site.scope right).isUnjudged) (pos : Position) (op : BinaryOp) :
    boolWithInt.finding? model site (.binary pos op left right) = none := by
  rw [← Option.not_isSome_iff_eq_none, isSome_boolWithInt, BoolWithInt.of?_of_isUnjudged h,
    BoolWithInt.of?_of_isUnjudged h.symm]
  simp

theorem boolWithBool_eq_none (h : (model.classify site.scope left).isUnjudged ∨
      (model.classify site.scope right).isUnjudged) (pos : Position) (op : BinaryOp) :
    boolWithBool.finding? model site (.binary pos op left right) = none := by
  rw [← Option.not_isSome_iff_eq_none, isSome_boolWithBool]
  rintro ⟨-, hLeft, hRight⟩
  simp [hLeft, hRight, ValueClass.isUnjudged] at h

end ExprRule

end TruthLint
