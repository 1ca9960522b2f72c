import Mathlib.Data.Option.Basic
import TruthLint.Proofs.Analysis.Report
import TruthLint.Proofs.Expr.Mirror

/-! The rules and mirrored comparisons. None of the rules depends on the side on which the operands
of a comparison stand, so that a report names the same problems whichever way they are written. -/

namespace TruthLint

/-- Where a finding is and what it says. -/
def Finding.place (finding : Finding) : Position × String := (finding.pos, finding.message)

def Diagnostic.place (d : Diagnostic) : Position × String := (d.start, d.message)

namespace ExprRule

/-- The rule says the same of an expression and of a mirrored one. -/
def IgnoresMirroring (rule : ExprRule) : Prop :=
  ∀ (model model' : Model) (e e' : Expr), model.Mirrored model' → e.Mirrored e' → ∀ site,
    (rule.finding? model' site e').map Finding.place =
      (rule.finding? model site e).map Finding.place

/-- A comparison has no logical counterpart. -/
theorem logicalCounterpart?_eq_none {op : BinaryOp} (h : op.isComparison) :
    logicalCounterpart? op = none := by
  cases op <;> first | rfl | cases h

theorem bitwiseOnBoolean_ignoresMirroring : bitwiseOnBoolean.IgnoresMirroring := by
  intro model model' e e' h hExpr site
  cases hExpr with
  | binary pos op first second =>
      simp only [bitwiseOnBoolean, h.boolVariable? first, h.boolVariable? second]
  | swap pos op comparison first second =>
      simp [bitwiseOnBoolean, logicalCounterpart?_eq_none, comparison]
  | _ => rfl

theorem incrementBoolean_ignoresMirroring : incrementBoolean.IgnoresMirroring := by
  intro model model' e e' h hExpr site
  cases hExpr with
  | unary pos op part =>
      cases op with
      | postIncrement =>
          cases part with
          | var varPos name => simp only [incrementBoolean, h.variableType]
          | _ => rfl
      | _ => rfl
  | _ => rfl

theorem assignBoolToPointer_ignoresMirroring : assignBoolToPointer.IgnoresMirroring := by
  intro model model' e e' h hExpr site
  cases hExpr with
  | assign pos compound first second =>
      cases compound with
      | true => rfl
      | false =>
          cases first with
          | var varPos name =>
              cases second with
              | literal literalPos value =>
                  cases value with
                  | bool value => simp only [assignBoolToPointer, h.variableType]
                  | _ => rfl
              | _ => rfl
          | _ => rfl
  | _ => rfl

/-- The side of the boolean expression does not matter, as on the right it is judged by the mirrored
operator. -/
theorem boolExpressionWithInt_ignoresMirroring : boolExpressionWithInt.IgnoresMirroring := by
  intro model model' e e' h hExpr site
  cases hExpr with
  | binary pos op first second =>
      simp only [boolExpressionWithInt, h.classify first, h.classify second]
  | swap pos op comparison first second =>
      simp only [boolExpressionWithInt, h.classify first, h.classify second,
        BinaryOp.isComparison_mirrored]
      cases model.classify site.scope _ <;> cases model.classify site.scope _ <;>
        simp only [BinaryOp.mirrored_mirrored]
  | _ => rfl

/-- Whether a boolean can be compared with an integer does not depend on the direction. -/
theorem BoolWithInt.of?_mirrored (op : BinaryOp) (boolean value : ValueClass) :
    of? op.mirrored boolean value = of? op boolean value := by
  cases boolean <;> cases value <;> simp [of?]

/-- At most one order of the operands is that of a boolean and another value. -/
theorem BoolWithInt.or_of?_comm (op : BinaryOp) (left right : ValueClass) :
    (of? op right left).or (of? op left right) = (of? op left right).or (of? op right left) := by
  cases left <;> cases right <;> simp [of?]

/-- The boolean is looked for on both sides. -/
theorem boolWithInt_ignoresMirroring : boolWithInt.IgnoresMirroring := by
  intro model model' e e' h hExpr site
  cases hExpr with
  | binary pos op first second =>
      simp only [boolWithInt, h.classify first, h.classify second]
  | swap pos op comparison first second =>
      simp only [boolWithInt, h.classify first, h.classify second,
        BinaryOp.isComparison_mirrored, BoolWithInt.of?_mirrored]
      rw [BoolWithInt.or_of?_comm]
  | _ => rfl

/-- The message for an ordering, by which of its operands are calls that return a boolean. -/
def orderedCallsMessage? : (left right : Bool) → Option String
  | true, true => some ("Comparison of two functions returning boolean value" ++ usingRelational)
  | false, false => none
  | _, _ => some ("Comparison of a function returning boolean value" ++ usingRelational)

/-- The message is about one call or about two, and not about their sides. -/
theorem orderedCallsMessage?_comm (left right : Bool) :
    orderedCallsMessage? right left = orderedCallsMessage? left right := by
  cases left <;> cases right <;> rfl

/-- Where an ordering is reported and with which message. -/
theorem place_functionReturningBool (model : Model) (site : Site) (pos : Position)
    (op : BinaryOp) (left right : Expr) :
    (functionReturningBool.finding? model site (.binary pos op left right)).map Finding.place =
      if op.isRelational then
        (orderedCallsMessage? (model.boolCall? site.scope left).isSome
          (model.boolCall? site.scope right).isSome).map fun message => (pos, message)
      else none := by
  simp only [functionReturningBool]
  cases hRelational : op.isRelational with
  | false => rfl
  | true =>
      cases model.boolCall? site.scope left <;> cases model.boolCall? site.scope right <;> rfl

/-- The calls are counted, whatever side they are on. -/
theorem functionReturningBool_ignoresMirroring : functionReturningBool.IgnoresMirroring := by
  intro model model' e e' h hExpr site
  cases hExpr with
  | binary pos op first second =>
      rw [place_functionReturningBool, place_functionReturningBool, h.isSome_boolCall? first,
        h.isSome_boolCall? second]
  | swap pos op comparison first second =>
      rw [place_functionReturningBool, place_functionReturningBool, h.isSome_boolCall? first,
        h.isSome_boolCall? second, BinaryOp.isRelational_mirrored, orderedCallsMessage?_comm]
  | _ => rfl

/-- Both sides have to be boolean variables, in either order. -/
theorem boolWithBool_ignoresMirroring : boolWithBool.IgnoresMirroring := by
  intro model model' e e' h hExpr site
  cases hExpr with
  | binary pos op first second =>
      cases first with
      | var leftPos left =>
          cases second with
          | var rightPos right => simp only [boolWithBool, h.variableType]
          | _ => rfl
      | _ => rfl
  | swap pos op comparison first second =>
      cases first with
      | var leftPos left =>
          cases second with
          | var rightPos right =>
              simp only [boolWithBool, h.variableType, BinaryOp.isRelational_mirrored]
              cases op.isRelational with
              | false => rfl
              | true =>
                  by_cases hLeft : model.variableType left site.scope = .boolean <;>
                    by_cases hRight : model.variableType right site.scope = .boolean <;>
                    simp [hLeft, hRight, Finding.place]
          | _ => rfl
      | _ => cases second <;> rfl
  | _ => rfl

/-- No built-in rule depends on the direction in which a comparison is written. -/
theorem builtins_ignoreMirroring : ∀ rule ∈ builtins, rule.IgnoresMirroring := by
  simp only [builtins, List.forall_mem_cons]
  exact ⟨bitwiseOnBoolean_ignoresMirroring, incrementBoolean_ignoresMirroring,
    assignBoolToPointer_ignoresMirroring, boolExpressionWithInt_ignoresMirroring,
    boolWithInt_ignoresMirroring, functionReturningBool_ignoresMirroring,
    boolWithBool_ignoresMirroring, List.forall_mem_nil _⟩

namespace IgnoresMirroring

variable {rule : ExprRule} {file file' : SourceFile}

/-- What holds of one expression holds of a whole file, up to the order of the findings. -/
theorem perm_place_check (hRule : rule.IgnoresMirroring) (h : file.model.Mirrored file'.model) :
    ((rule.toRule.check file').map Diagnostic.place).Perm
      ((rule.toRule.check file).map Diagnostic.place) := by
  have hPlace (file : SourceFile) : (rule.toRule.check file).map Diagnostic.place =
      (Visitor.visitsOfRoots file.model.roots.toList).filterMap fun call =>
        (rule.finding? file.model call.1 call.2).map Finding.place := by
    rw [← List.map_filterMap, ← findingsIn, ← findings_eq, toRule, List.map_map]
    rfl
  rw [hPlace, hPlace]
  refine Visitor.perm_filterMap_visitsOfRoots (fun site e e' hExpr => ?_) h.roots
  exact hRule _ _ e e' h hExpr site

/-- The findings in mirrored files have the same keys, though they need not come in the same order.
-/
theorem perm_key_check (hRule : rule.IgnoresMirroring) (h : file.model.Mirrored file'.model) :
    ((rule.toRule.check file').map Diagnostic.key).Perm
      ((rule.toRule.check file).map Diagnostic.key) := by
  have hKey (file : SourceFile) : (rule.toRule.check file).map Diagnostic.key =
      ((rule.toRule.check file).map Diagnostic.place).map fun place =>
        (rule.info.id, place.1.line, place.2) := by
    simp only [toRule, List.map_map]
    rfl
  rw [hKey, hKey]
  exact (hRule.perm_place_check h).map _

end IgnoresMirroring

end ExprRule

/-- Mirrored comparisons change no place and no message of what a built-in rule finds, and under
the same directives and settings the same rules report the same of the same lines. -/
theorem Registry.builtin_ignores_mirroring (file file' : SourceFile)
    (h : file.model.Mirrored file'.model) :
    (∀ rule ∈ ExprRule.builtins, ((rule.toRule.check file').map Diagnostic.place).Perm
      ((rule.toRule.check file).map Diagnostic.place)) ∧
    (file'.directives = file.directives → ∀ config k,
      k ∈ ((Registry.builtin config).analyze file').map Diagnostic.key ↔
        k ∈ ((Registry.builtin config).analyze file).map Diagnostic.key) := by
  refine ⟨fun rule hRule => (ExprRule.builtins_ignoreMirroring rule hRule).perm_place_check h,
    fun hDirectives config => mem_key_analyze_congr hDirectives ?_⟩
  rw [map_key_runAll, map_key_runAll]
  refine List.Perm.flatMap_left _ fun rule hRule => ?_
  obtain ⟨exprRule, hBuiltin, rfl⟩ := List.mem_map.mp (List.mem_filter.mp hRule).1
  exact (ExprRule.builtins_ignoreMirroring exprRule hBuiltin).perm_key_check h

/-- A file with a single condition, where `flag` is a boolean variable. -/
def SourceFile.withFlag (condition : Expr) : SourceFile :=
  ⟨"flag.cpp", "", .bare, [], ⟨Model.initial.scopes,
    SymbolTable.empty.declareVariable "flag" .boolean Model.globalScope 1,
    #[⟨condition, Model.globalScope, .condition⟩]⟩⟩

/-- In `(!flag == 10) < (flag != 2)` and `(2 != flag) > (!flag == 10)` the same is wrong. -/
theorem Registry.builtin_ignores_mirroring_nested :
    let flag : Expr := .var ⟨2, 5⟩ "flag"
    let isTen : Expr := .binary ⟨2, 11⟩ .eq (.unary ⟨2, 5⟩ .not flag)
      (.literal ⟨2, 14⟩ (.number (some 10)))
    let two : Expr := .literal ⟨2, 30⟩ (.number (some 2))
    let below := SourceFile.withFlag (.binary ⟨2, 18⟩ .lt isTen (.binary ⟨2, 27⟩ .ne flag two))
    let above := SourceFile.withFlag (.binary ⟨2, 18⟩ .gt (.binary ⟨2, 27⟩ .ne two flag) isTen)
    below.model.Mirrored above.model ∧
      ("B005", 2, "Comparison of a boolean with an integer that is neither 1 nor 0.") ∈
        ((Registry.builtin .empty).analyze above).map Diagnostic.key := by
  intro flag isTen two below above
  have hFlag : flag.Mirrored flag := .var _ _
  have hTen : isTen.Mirrored isTen := .binary _ _ (.unary _ _ hFlag) (.literal _ _)
  have hTwo : Expr.Mirrored (.binary ⟨2, 27⟩ .ne flag two) (.binary ⟨2, 27⟩ .ne two flag) :=
    .swap _ .ne rfl hFlag (.literal _ _)
  have hMirrored : below.model.Mirrored above.model :=
    ⟨rfl, rfl, .cons ⟨.swap _ .lt rfl hTen hTwo, rfl, rfl⟩ .nil⟩
  obtain ⟨-, hReport⟩ := Registry.builtin_ignores_mirroring below above hMirrored
  exact ⟨hMirrored, (hReport rfl .empty _).mpr (mem_key_analyze_iff.mpr (by decide +kernel))⟩

end TruthLint
