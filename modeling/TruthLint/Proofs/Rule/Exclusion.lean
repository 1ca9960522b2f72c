import Mathlib.Data.List.Nodup
import TruthLint.Proofs.Rule.Comparison
import TruthLint.Proofs.Visit.Calls

/-! Rules that exclude each other. An expression has one subject at most, which its operator and the
classes of its operands tell, and each rule reports expressions with one subject only. Two of the
rules look at comparisons with a boolean expression, for different reasons. -/

namespace TruthLint

/-- What an operator or an assignment is about. -/
inductive Subject where
  | unary
  | assignment
  /-- A binary operator that is not a comparison. -/
  | operation
  /-- A comparison with a boolean expression. -/
  | boolExpression
  /-- A comparison of two boolean variables. -/
  | boolVariables
  /-- Any other comparison. -/
  | values
deriving DecidableEq, Repr

/-- The subject of a comparison of values of two classes. -/
def Subject.ofClasses : (left right : ValueClass) → Subject
  | .boolExpr, _ => .boolExpression
  | _, .boolExpr => .boolExpression
  | .boolVariable, .boolVariable => .boolVariables
  | _, _ => .values

/-- A boolean expression on either side makes it the subject of the comparison. -/
theorem Subject.ofClasses_of_boolExpr {left right : ValueClass}
    (h : left = .boolExpr ∨ right = .boolExpr) : ofClasses left right = .boolExpression := by
  rcases h with rfl | rfl
  · rfl
  · cases left <;> rfl

namespace Model

def subject? (model : Model) (scope : Nat) : Expr → Option Subject
  | .unary _ _ _ => some .unary
  | .assign _ _ _ _ => some .assignment
  | .binary _ op left right =>
    if op.isComparison then
      some (.ofClasses (model.classify scope left) (model.classify scope right))
    else some .operation
  | _ => none

/-- What a comparison is about follows from the classes of its sides. -/
theorem subject?_comparison {model : Model} {scope : Nat} {pos : Position} {op : BinaryOp}
    {left right : Expr} (h : op.isComparison) :
    model.subject? scope (.binary pos op left right) =
      some (.ofClasses (model.classify scope left) (model.classify scope right)) :=
  if_pos h

end Model

namespace ExprRule

/-- The rule reports nothing but expressions with the subject. -/
def Concerns (rule : ExprRule) (subject : Subject) : Prop :=
  ∀ (model : Model) (site : Site) (e : Expr), (rule.finding? model site e).isSome →
    model.subject? site.scope e = some subject

theorem bitwiseOnBoolean_concerns : bitwiseOnBoolean.Concerns .operation := by
  intro model site e h
  cases e with
  | binary pos op left right =>
      cases hComparison : op.isComparison with
      | false => simp [Model.subject?, hComparison]
      | true => simp [bitwiseOnBoolean, logicalCounterpart?_eq_none hComparison] at h
  | _ => cases h

theorem incrementBoolean_concerns : incrementBoolean.Concerns .unary := by
  intro model site e h
  cases e with
  | unary pos op operand => rfl
  | _ => cases h

theorem assignBoolToPointer_concerns : assignBoolToPointer.Concerns .assignment := by
  intro model site e h
  cases e with
  | assign pos compound target value => rfl
  | _ => cases h

/-- A comparison that is reported here has a boolean expression on one side. -/
theorem boolExpressionWithInt_concerns : boolExpressionWithInt.Concerns .boolExpression := by
  intro model site e h
  cases e with
  | binary pos op left right =>
      obtain ⟨hComparison, hExpr⟩ := isSome_boolExpressionWithInt.mp h
      rw [Model.subject?_comparison hComparison,
        Subject.ofClasses_of_boolExpr (hExpr.imp And.left And.left)]
  | _ => cases h

/-- A boolean expression is neither a boolean nor a value that is badly compared with one, and two
boolean variables may be compared. -/
theorem BoolWithInt.ofClasses_of_isSome {op : BinaryOp} {boolean value : ValueClass}
    (h : (of? op boolean value).isSome) :
    Subject.ofClasses boolean value = .values ∧ Subject.ofClasses value boolean = .values := by
  cases boolean <;> cases value <;> first | exact ⟨rfl, rfl⟩ | cases h

/-- A comparison with an integer is one of values, so that no side of it is a boolean expression. -/
theorem boolWithInt_concerns : boolWithInt.Concerns .values := by
  intro model site e h
  cases e with
  | binary pos op left right =>
      obtain ⟨hComparison, hProblem⟩ := isSome_boolWithInt.mp h
      rw [Model.subject?_comparison hComparison]
      rcases hProblem with hLeft | hRight
      · rw [(BoolWithInt.ofClasses_of_isSome hLeft).left]
      · rw [(BoolWithInt.ofClasses_of_isSome hRight).right]
  | _ => cases h

/-- A call that returns a boolean is a boolean expression. -/
theorem functionReturningBool_concerns : functionReturningBool.Concerns .boolExpression := by
  intro model site e h
  cases e with
  | binary pos op left right =>
      obtain ⟨hRelational, hCall⟩ := isSome_functionReturningBool.mp h
      have hExpr := hCall.imp Model.classify_of_isSome_boolCall? Model.classify_of_isSome_boolCall?
      rw [Model.subject?_comparison (BinaryOp.isComparison_of_isRelational hRelational),
        Subject.ofClasses_of_boolExpr hExpr]
  | _ => cases h

/-- Both sides of the comparison are boolean variables. -/
theorem boolWithBool_concerns : boolWithBool.Concerns .boolVariables := by
  intro model site e h
  cases e with
  | binary pos op left right =>
      obtain ⟨hRelational, hLeft, hRight⟩ := isSome_boolWithBool.mp h
      rw [Model.subject?_comparison (BinaryOp.isComparison_of_isRelational hRelational), hLeft,
        hRight, Subject.ofClasses]
  | _ => cases h

/-- The built-in rules with the subjects of what they report. -/
def subjects : List (ExprRule × Subject) :=
  [(bitwiseOnBoolean, .operation), (incrementBoolean, .unary), (assignBoolToPointer, .assignment),
    (boolExpressionWithInt, .boolExpression), (boolWithInt, .values),
    (functionReturningBool, .boolExpression), (boolWithBool, .boolVariables)]

/-- Every built-in rule is listed with its subject. -/
theorem map_fst_subjects : subjects.map Prod.fst = builtins := rfl

/-- What a built-in rule reports has the subject that belongs to the rule. -/
theorem subjects_concern : ∀ entry ∈ subjects, entry.1.Concerns entry.2 := by
  simp only [subjects, List.forall_mem_cons]
  exact ⟨bitwiseOnBoolean_concerns, incrementBoolean_concerns, assignBoolToPointer_concerns,
    boolExpressionWithInt_concerns, boolWithInt_concerns, functionReturningBool_concerns,
    boolWithBool_concerns, List.forall_mem_nil _⟩

/-- There is a model in which both rules report one of the expressions that a walk calls for. -/
def Meets (first second : ExprRule) : Prop :=
  ∃ model : Model, ∃ call ∈ model.calls, (first.finding? model call.1 call.2).isSome ∧
    (second.finding? model call.1 call.2).isSome

/-- Two rules that report one node have one subject. -/
theorem Meets.subject_eq {first second : ExprRule} {subject subject' : Subject}
    (h : first.Meets second) (hFirst : first.Concerns subject)
    (hSecond : second.Concerns subject') : subject = subject' := by
  obtain ⟨model, call, -, hFound, hFound'⟩ := h
  have hSame := (hFirst model call.1 call.2 hFound).symm.trans
    (hSecond model call.1 call.2 hFound')
  exact Option.some.inj hSame

/-- The comparison `f() > 5`. -/
def callAboveFive : Expr :=
  .binary ⟨2, 9⟩ .gt (.call ⟨2, 5⟩ (.unqualified "f") []) (.literal ⟨2, 11⟩ (.number (some 5)))

/-- Where `f` returns a boolean, `f() > 5` compares it with an integer and orders it. -/
theorem boolExpressionWithInt_meets : boolExpressionWithInt.Meets functionReturningBool := by
  let model := (Model.initial.declareFunction "f" .boolean Model.globalScope 1).addRoot
    ⟨callAboveFive, Model.globalScope, .condition⟩
  have hCall : (⟨Model.globalScope, true⟩, callAboveFive) ∈ model.calls := by
    rw [← Visitor.visitsOfRoots_eq_calls]
    exact List.mem_cons_self
  exact ⟨model, _, hCall, by decide, by decide⟩

/-- Of two built-in rules at most one reports an operator, assignment or call of a model, unless one
of the two looks for boolean expressions that are compared with integers and the other one for
functions that return a boolean. These two may report the same comparison. -/
theorem builtins_meet_iff : builtins.Pairwise fun first second =>
    first.Meets second ↔ first.info.id = "B004" ∧ second.info.id = "B006" := by
  have hApart : subjects.Pairwise fun first second =>
      first.2 = second.2 ↔ first.1.info.id = "B004" ∧ second.1.info.id = "B006" := by decide
  have hIds : (builtins.map (·.info.id)).Nodup := by decide
  rw [← map_fst_subjects, List.pairwise_map]
  refine hApart.imp_of_mem fun {first second} hFirst hSecond hSame => ⟨fun h => ?_, fun h => ?_⟩
  · exact hSame.mp (h.subject_eq (subjects_concern first hFirst) (subjects_concern second hSecond))
  · have hFirstRule : first.1 = boolExpressionWithInt :=
      List.inj_on_of_nodup_map hIds (List.mem_map_of_mem hFirst) (by simp [builtins]) h.1
    have hSecondRule : second.1 = functionReturningBool :=
      List.inj_on_of_nodup_map hIds (List.mem_map_of_mem hSecond) (by simp [builtins]) h.2
    rw [hFirstRule, hSecondRule]
    exact boolExpressionWithInt_meets

end ExprRule

end TruthLint
