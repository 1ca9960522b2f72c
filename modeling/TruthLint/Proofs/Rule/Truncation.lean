import TruthLint.Proofs.Expr.Truncation
import TruthLint.Proofs.Rule.Comparison

/-! The rules and expressions that are cut off. A rule reports an expression for what its operands
are known to be, so that it reports less where less of them was read. -/

namespace TruthLint

namespace ExprRule

open TruthLint.Expr (Alike Truncated)

/-- Where the rule finds something in an expression that was cut off, it also finds something in
the expression of which more was read, though it may put it in other words. -/
def OnlyLoses (rule : ExprRule) : Prop :=
  ∀ (model : Model) (site : Site) (e e' : Expr) (p : Position), e.Truncated e' →
    (rule.finding? model site e).map Finding.pos = some p →
      (rule.finding? model site e').map Finding.pos = some p

/-- Nothing is found in what was cut off itself, so that only expressions with the same head are
left to compare. -/
theorem onlyLoses_of_alike {rule : ExprRule}
    (hOther : ∀ model site pos, rule.finding? model site (.other pos []) = none)
    (hAlike : ∀ (model : Model) (site : Site) (e e' : Expr) (p : Position),
      Alike Truncated e e' → (rule.finding? model site e).map Finding.pos = some p →
        (rule.finding? model site e').map Finding.pos = some p) : rule.OnlyLoses := by
  intro model site e e' p h hFound
  cases h with
  | cut pos e => simp [hOther] at hFound
  | keep parts => exact hAlike model site e e' p parts hFound

/-- An operation is reported at its own place or not at all. -/
theorem pos_bitwiseOnBoolean (model : Model) (site : Site) (pos : Position) (op : BinaryOp)
    (left right : Expr) :
    (bitwiseOnBoolean.finding? model site (.binary pos op left right)).map Finding.pos =
      if site.inCondition ∧ (logicalCounterpart? op).isSome ∧
          ((model.boolVariable? site.scope left).isSome ∨
            (model.boolVariable? site.scope right).isSome) then some pos
      else none := by
  simp only [bitwiseOnBoolean]
  cases site.inCondition with
  | false => rfl
  | true =>
      cases logicalCounterpart? op with
      | none => rfl
      | some logical =>
          cases model.boolVariable? site.scope left <;>
            cases model.boolVariable? site.scope right <;> rfl

theorem bitwiseOnBoolean_onlyLoses : bitwiseOnBoolean.OnlyLoses := by
  refine onlyLoses_of_alike (fun _ _ _ => rfl) fun model site e e' p h hFound => ?_
  cases h with
  | binary pos op first second =>
      rw [pos_bitwiseOnBoolean] at hFound ⊢
      split_ifs at hFound with hBefore
      obtain ⟨hCondition, hLogical, hVariable⟩ := hBefore
      have hAfter := hVariable.imp (first.isSome_boolVariable? model site.scope)
        (second.isSome_boolVariable? model site.scope)
      rw [if_pos ⟨hCondition, hLogical, hAfter⟩]
      exact hFound
  | _ => cases hFound

theorem incrementBoolean_onlyLoses : incrementBoolean.OnlyLoses := by
  refine onlyLoses_of_alike (fun _ _ _ => rfl) fun model site e e' p h hFound => ?_
  cases h with
  | unary pos op part =>
      cases op with
      | postIncrement =>
          cases part with
          | cut cutPos e => cases hFound
          | keep parts =>
              cases parts with
              | var varPos name => exact hFound
              | _ => cases hFound
      | _ => cases hFound
  | _ => cases hFound

theorem assignBoolToPointer_onlyLoses : assignBoolToPointer.OnlyLoses := by
  refine onlyLoses_of_alike (fun _ _ _ => rfl) fun model site e e' p h hFound => ?_
  cases h with
  | assign pos compound first second =>
      cases compound with
      | true => cases hFound
      | false =>
          cases first with
          | cut cutPos e => cases hFound
          | keep targets =>
              cases targets with
              | var varPos name =>
                  cases second with
                  | cut cutPos e => cases hFound
                  | keep values =>
                      cases values with
                      | literal literalPos value => exact hFound
                      | _ => cases hFound
              | _ => cases hFound
  | _ => cases hFound

/-- A comparison that is judged by the classes of its operands is judged as before unless one of
them is cut off. -/
theorem onlyLoses_of_classes {rule : ExprRule}
    (hHead : ∀ model site e, (∀ pos op left right, e ≠ .binary pos op left right) →
      rule.finding? model site e = none)
    (hNone : ∀ {model : Model} {site : Site} {left right : Expr},
      (model.classify site.scope left).isUnjudged ∨ (model.classify site.scope right).isUnjudged →
        ∀ pos op, rule.finding? model site (.binary pos op left right) = none)
    (hSame : ∀ {model : Model} {site : Site} {left left' right right' : Expr},
      model.classify site.scope left = model.classify site.scope left' →
      model.classify site.scope right = model.classify site.scope right' →
        ∀ pos op, rule.finding? model site (.binary pos op left right) =
          rule.finding? model site (.binary pos op left' right')) : rule.OnlyLoses := by
  refine onlyLoses_of_alike (fun _ _ _ => hHead _ _ _ (by simp))
    fun model site e e' p h hFound => ?_
  cases h with
  | binary pos op first second =>
      rcases first.classify model site.scope with hCut | hLeft
      · simp [hNone (.inl (by rw [hCut, ValueClass.isUnjudged]))] at hFound
      · rcases second.classify model site.scope with hCut | hRight
        · simp [hNone (.inr (by rw [hCut, ValueClass.isUnjudged]))] at hFound
        · rwa [← hSame hLeft hRight]
  | _ => simp [hHead] at hFound

/-- A side that is cut off is not judged, so that nothing is found next to it. -/
theorem boolExpressionWithInt_onlyLoses : boolExpressionWithInt.OnlyLoses := by
  refine onlyLoses_of_classes (fun model site e hHead => ?_) boolExpressionWithInt_eq_none ?_
  · cases e with
    | binary pos op left right => exact absurd rfl (hHead pos op left right)
    | _ => rfl
  · intro model site left left' right right' hLeft hRight pos op
    simp only [boolExpressionWithInt, hLeft, hRight]

theorem boolWithInt_onlyLoses : boolWithInt.OnlyLoses := by
  refine onlyLoses_of_classes (fun model site e hHead => ?_) boolWithInt_eq_none ?_
  · cases e with
    | binary pos op left right => exact absurd rfl (hHead pos op left right)
    | _ => rfl
  · intro model site left left' right right' hLeft hRight pos op
    simp only [boolWithInt, hLeft, hRight]

theorem pos_functionReturningBool (model : Model) (site : Site) (pos : Position) (op : BinaryOp)
    (left right : Expr) :
    (functionReturningBool.finding? model site (.binary pos op left right)).map Finding.pos =
      if op.isRelational ∧ ((model.boolCall? site.scope left).isSome ∨
        (model.boolCall? site.scope right).isSome) then some pos else none := by
  have hPlace := congrArg (Option.map Prod.fst)
    (place_functionReturningBool model site pos op left right)
  rw [Option.map_map] at hPlace
  refine hPlace.trans ?_
  cases op.isRelational with
  | false => rfl
  | true =>
      cases (model.boolCall? site.scope left).isSome <;>
        cases (model.boolCall? site.scope right).isSome <;> rfl

/-- Of two calls one may be cut off, which leaves a finding with another message. -/
theorem functionReturningBool_onlyLoses : functionReturningBool.OnlyLoses := by
  refine onlyLoses_of_alike (fun _ _ _ => rfl) fun model site e e' p h hFound => ?_
  cases h with
  | binary pos op first second =>
      rw [pos_functionReturningBool] at hFound ⊢
      split_ifs at hFound with hBefore
      obtain ⟨hRelational, hCall⟩ := hBefore
      have hAfter := hCall.imp (first.isSome_boolCall? model site.scope)
        (second.isSome_boolCall? model site.scope)
      rw [if_pos ⟨hRelational, hAfter⟩]
      exact hFound
  | _ => cases hFound

theorem boolWithBool_onlyLoses : boolWithBool.OnlyLoses := by
  refine onlyLoses_of_alike (fun _ _ _ => rfl) fun model site e e' p h hFound => ?_
  cases h with
  | binary pos op first second =>
      cases first with
      | cut cutPos e => cases hFound
      | keep lefts =>
          cases lefts with
          | var leftPos left =>
              cases second with
              | cut cutPos e => cases hFound
              | keep rights =>
                  cases rights with
                  | var rightPos right => exact hFound
                  | _ => cases hFound
          | _ => cases hFound
  | _ => cases hFound

/-- To cut an expression off below some depth only makes the built-in rules lose findings. -/
theorem builtins_onlyLose : ∀ rule ∈ builtins, rule.OnlyLoses := by
  simp only [builtins, List.forall_mem_cons]
  exact ⟨bitwiseOnBoolean_onlyLoses, incrementBoolean_onlyLoses, assignBoolToPointer_onlyLoses,
    boolExpressionWithInt_onlyLoses, boolWithInt_onlyLoses, functionReturningBool_onlyLoses,
    boolWithBool_onlyLoses, List.forall_mem_nil _⟩

/-- What a rule makes of an expression does not depend on the other expressions of the model. -/
theorem finding?_withRoots : ∀ rule ∈ builtins, ∀ (model : Model) (roots : Array Root),
    rule.finding? { model with roots } = rule.finding? model := by
  simp only [builtins, List.forall_mem_cons]
  exact ⟨fun _ _ => rfl, fun _ _ => rfl, fun _ _ => rfl, fun _ _ => rfl, fun _ _ => rfl,
    fun _ _ => rfl, fun _ _ => rfl, List.forall_mem_nil _⟩

end ExprRule

namespace SourceFile

open TruthLint.Expr (Truncated)

/-- The file with a single expression in the place of its own. -/
def withRoot (file : SourceFile) (root : Root) : SourceFile :=
  { file with model := { file.model with roots := #[root] } }

/-- Which built-in rules report something, and where. -/
def reported (file : SourceFile) : List (String × Position) :=
  ExprRule.builtins.flatMap fun rule =>
    (rule.toRule.check file).map fun d => (d.ruleId, d.start)

/-- A file with a single expression is reported for the operators, assignments and calls in it. -/
theorem reported_withRoot (file : SourceFile) (root : Root) :
    (file.withRoot root).reported = ExprRule.builtins.flatMap fun rule =>
      ((Visitor.visits ⟨root.scope, root.context = .condition⟩ root.expr).filterMap fun call =>
        (rule.finding? file.model call.1 call.2).map Finding.pos).map
          fun pos => (rule.info.id, pos) := by
  refine List.flatMap_congr fun rule hRule => ?_
  have hFindings : rule.findings (file.withRoot root).model =
      (Visitor.visits ⟨root.scope, root.context = .condition⟩ root.expr).filterMap
        fun call => rule.finding? file.model call.1 call.2 := by
    rw [ExprRule.findings_eq, ExprRule.findingsIn, withRoot,
      ExprRule.finding?_withRoots rule hRule]
    simp [Visitor.visitsOfRoots]
  rw [← List.map_filterMap, ← hFindings, List.map_map]
  exact List.map_map

/-- The findings in a root that is cut off are some of those in the whole root, in the same order.
-/
theorem reported_sublist_of_truncated (file : SourceFile) {e e' : Expr} (h : e.Truncated e')
    (scope : Nat) (context : RootContext) :
    (file.withRoot ⟨e, scope, context⟩).reported.Sublist
      (file.withRoot ⟨e', scope, context⟩).reported := by
  rw [reported_withRoot, reported_withRoot]
  refine List.Sublist.flatMap_right _ fun rule hRule => List.Sublist.map _ ?_
  refine Visitor.sublist_filterMap_visits (fun site e e' hCut pos hFound => ?_) h _
  exact ExprRule.builtins_onlyLose rule hRule file.model site e e' pos hCut hFound

/-- The limit on nesting only loses findings: from whatever depth on a node is read, under any
declarations, in any scope and context, the rules report no more than if it had been read from
less deep, and in the same order. -/
theorem reported_sublist_of_depth_le (file : SourceFile) (node : Cst.Node) (scope : Nat)
    (context : RootContext) {shallow deep : Nat} (h : shallow ≤ deep) :
    let readAt (depth : Nat) : Root :=
      ⟨.ofNodeWithin (Expr.nestingLimit - depth) node, scope, context⟩
    (file.withRoot (readAt deep)).reported.Sublist (file.withRoot (readAt shallow)).reported := by
  intro readAt
  refine reported_sublist_of_truncated file ?_ scope context
  exact Truncated.ofNodeWithin (Nat.sub_le_sub_left h _) node

/-- The tree of `flag & (flag == 2)`. -/
def flagAndTwo : Cst.Node :=
  .ofRows "flag & (flag == 2)"
    [⟨none, "binary_expression", true, false, false, false, none, 0, 18⟩,
      ⟨some 0, "identifier", true, false, false, false, some "left", 0, 4⟩,
      ⟨some 0, "&", false, false, false, false, some "operator", 5, 6⟩,
      ⟨some 0, "parenthesized_expression", true, false, false, false, some "right", 7, 18⟩,
      ⟨some 3, "binary_expression", true, false, false, false, none, 8, 17⟩,
      ⟨some 4, "identifier", true, false, false, false, some "left", 8, 12⟩,
      ⟨some 4, "==", false, false, false, false, some "operator", 13, 15⟩,
      ⟨some 4, "number_literal", true, false, false, false, some "right", 16, 17⟩]

/-- Two levels above the limit, the comparison in the parentheses is not read any more. -/
theorem reported_sublist_of_depth_le_parentheses :
    let file := withFlag (.other .start [])
    let readAt (depth : Nat) : Root :=
      ⟨.ofNodeWithin (Expr.nestingLimit - depth) flagAndTwo, Model.globalScope, .condition⟩
    0 ≤ 198 ∧ (file.withRoot (readAt 198)).reported = [("B001", ⟨1, 6⟩)] ∧
      (file.withRoot (readAt 0)).reported = [("B001", ⟨1, 6⟩), ("B005", ⟨1, 14⟩)] ∧
      (file.withRoot (readAt 198)).reported.Sublist (file.withRoot (readAt 0)).reported := by
  intro file readAt
  refine ⟨by decide, by decide +kernel, by decide +kernel, ?_⟩
  exact reported_sublist_of_depth_le file flagAndTwo Model.globalScope .condition (by decide)

end SourceFile

end TruthLint
