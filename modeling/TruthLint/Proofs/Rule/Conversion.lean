import TruthLint.Proofs.Rule.Truncation

/-! Explicit conversions to the boolean type. Rules that go by the classes of the operands of a
comparison say nothing where one of them is converted. The rule that looks for calls does not ask
for the class of the other operand. -/

namespace TruthLint

/-- An explicit conversion to the boolean type. -/
def Expr.isBoolCast : Expr → Bool
  | cast _ toBool _ => toBool
  | _ => false

namespace Model

variable {model : Model} {scope : Nat} {e : Expr}

theorem classify_of_isBoolCast (h : e.isBoolCast) : model.classify scope e = .boolCast := by
  cases e with
  | cast pos toBool operand =>
      cases toBool with
      | true => rfl
      | false => cases h
  | _ => cases h

/-- A conversion hides what it converts, also a call. -/
theorem boolCall?_of_isBoolCast (h : e.isBoolCast) : model.boolCall? scope e = none := by
  cases e with
  | cast pos toBool operand => rfl
  | _ => cases h

end Model

namespace ExprRule

/-- Where an operand of a comparison is explicitly converted, the rules for booleans and integers
and for two booleans say nothing, whatever the operator and the other operand are. What is said is
that the other operand is a call that returns a boolean and that it is ordered. -/
theorem boolCast_suppresses {left right : Expr} (h : left.isBoolCast ∨ right.isBoolCast)
    (model : Model) (site : Site) (pos : Position) (op : BinaryOp) :
    (∀ rule ∈ [boolExpressionWithInt, boolWithInt, boolWithBool],
      rule.finding? model site (.binary pos op left right) = none) ∧
    ((functionReturningBool.finding? model site (.binary pos op left right)).isSome ↔
      op.isRelational ∧ (left.isBoolCast ∧ (model.boolCall? site.scope right).isSome ∨
        right.isBoolCast ∧ (model.boolCall? site.scope left).isSome)) := by
  constructor
  · have hUnjudged : (model.classify site.scope left).isUnjudged ∨
        (model.classify site.scope right).isUnjudged :=
      h.imp (fun hLeft => by rw [Model.classify_of_isBoolCast hLeft, ValueClass.isUnjudged])
        fun hRight => by rw [Model.classify_of_isBoolCast hRight, ValueClass.isUnjudged]
    simp only [List.forall_mem_cons]
    exact ⟨boolExpressionWithInt_eq_none hUnjudged pos op, boolWithInt_eq_none hUnjudged pos op,
      boolWithBool_eq_none hUnjudged pos op, List.forall_mem_nil _⟩
  · rw [isSome_functionReturningBool]
    refine and_congr_right fun _ => ⟨fun hCall => ?_, fun hCall => ?_⟩
    · rcases h with hLeft | hRight
      · exact .inl ⟨hLeft, hCall.resolve_left (by simp [Model.boolCall?_of_isBoolCast hLeft])⟩
      · exact .inr ⟨hRight, hCall.resolve_right (by simp [Model.boolCall?_of_isBoolCast hRight])⟩
    · exact hCall.symm.imp And.right And.right

/-- An ordering of `flag` and 2 is reported, but not one of `flag` and `(bool)2`. -/
theorem boolCast_suppresses_flag :
    let flag : Expr := .var ⟨1, 5⟩ "flag"
    let two : Expr := .literal ⟨1, 18⟩ (.number (some 2))
    let converted : Expr := .cast ⟨1, 12⟩ true two
    let model := (SourceFile.withFlag flag).model
    let site : Site := ⟨Model.globalScope, true⟩
    (boolWithInt.finding? model site (.binary ⟨1, 10⟩ .lt flag two)).isSome ∧
      (flag.isBoolCast ∨ converted.isBoolCast) ∧
      boolWithInt.finding? model site (.binary ⟨1, 10⟩ .lt flag converted) = none := by
  intro flag two converted model site
  have hConverted : flag.isBoolCast ∨ converted.isBoolCast := .inr rfl
  obtain ⟨hNone, -⟩ := boolCast_suppresses hConverted model site ⟨1, 10⟩ .lt
  exact ⟨by decide, hConverted, hNone boolWithInt (by simp)⟩

/-- The tree of a comparison of a converted parameter with a call. -/
def convertedBelowCall : Cst.Node :=
  .ofRows "bool g(); void f(int x) \x7b if ((bool)x < g()) \x7b \x7d \x7d"
    [⟨none, "translation_unit", true, false, false, false, none, 0, 50⟩,
      ⟨some 0, "declaration", true, false, false, false, none, 0, 9⟩,
      ⟨some 1, "primitive_type", true, false, false, false, some "type", 0, 4⟩,
      ⟨some 1, "function_declarator", true, false, false, false, some "declarator", 5, 8⟩,
      ⟨some 3, "identifier", true, false, false, false, some "declarator", 5, 6⟩,
      ⟨some 3, "parameter_list", true, false, false, false, some "parameters", 6, 8⟩,
      ⟨some 0, "function_definition", true, false, false, false, none, 10, 50⟩,
      ⟨some 6, "primitive_type", true, false, false, false, some "type", 10, 14⟩,
      ⟨some 6, "function_declarator", true, false, false, false, some "declarator", 15, 23⟩,
      ⟨some 8, "identifier", true, false, false, false, some "declarator", 15, 16⟩,
      ⟨some 8, "parameter_list", true, false, false, false, some "parameters", 16, 23⟩,
      ⟨some 10, "parameter_declaration", true, false, false, false, none, 17, 22⟩,
      ⟨some 11, "primitive_type", true, false, false, false, some "type", 17, 20⟩,
      ⟨some 11, "identifier", true, false, false, false, some "declarator", 21, 22⟩,
      ⟨some 6, "compound_statement", true, false, false, false, some "body", 24, 50⟩,
      ⟨some 14, "if_statement", true, false, false, false, none, 26, 48⟩,
      ⟨some 15, "condition_clause", true, false, false, false, some "condition", 29, 44⟩,
      ⟨some 16, "binary_expression", true, false, false, false, some "value", 30, 43⟩,
      ⟨some 17, "cast_expression", true, false, false, false, some "left", 30, 37⟩,
      ⟨some 18, "type_descriptor", true, false, false, false, some "type", 31, 35⟩,
      ⟨some 19, "primitive_type", true, false, false, false, some "type", 31, 35⟩,
      ⟨some 18, "identifier", true, false, false, false, some "value", 36, 37⟩,
      ⟨some 17, "<", false, false, false, false, some "operator", 38, 39⟩,
      ⟨some 17, "call_expression", true, false, false, false, some "right", 40, 43⟩,
      ⟨some 23, "identifier", true, false, false, false, some "function", 40, 41⟩,
      ⟨some 23, "argument_list", true, false, false, false, some "arguments", 41, 43⟩,
      ⟨some 15, "compound_statement", true, false, false, false, some "consequence", 45, 48⟩]

/-- The ordering of `(bool)x` and `g()` is reported all the same, because of the call. -/
theorem not_boolCast_suppresses :
    SourceFile.reported ⟨"g.cpp", "", convertedBelowCall, [], .ofTree convertedBelowCall⟩ =
        [("B006", ⟨1, 39⟩)] ∧
      ¬∀ (model : Model) (site : Site) (pos : Position) (op : BinaryOp) (left right : Expr),
        left.isBoolCast ∨ right.isBoolCast →
        ∀ rule ∈ [boolExpressionWithInt, boolWithInt, functionReturningBool, boolWithBool],
          rule.finding? model site (.binary pos op left right) = none := by
  refine ⟨by decide +kernel, fun hAll => ?_⟩
  let model := Model.ofTree convertedBelowCall
  let site : Site := ⟨2, true⟩
  let converted : Expr := .cast ⟨1, 31⟩ true (.var ⟨1, 37⟩ "x")
  let call : Expr := .call ⟨1, 41⟩ (.unqualified "g") []
  have hNone := hAll model site ⟨1, 39⟩ .lt converted call (.inl rfl) functionReturningBool
    (by simp)
  have hFound : (functionReturningBool.finding? model site
      (.binary ⟨1, 39⟩ .lt converted call)).isSome := by decide +kernel
  simp [hNone] at hFound

end ExprRule

end TruthLint
