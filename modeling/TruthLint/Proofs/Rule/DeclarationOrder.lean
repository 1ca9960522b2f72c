import TruthLint.Proofs.Rule.Mirror
import TruthLint.Proofs.Scope.DeclarationOrder

/-! The rules and the order of declarations. A rule asks a model for the types of variables and for
the calls that return a boolean, so that it finds the same wherever these are the same. Functions
may therefore be declared in any order. -/

namespace TruthLint

/-- Interchangeable answers, or none, tell the same of the value of a call. -/
theorem Function.Interchangeable.any_returns {f? g? : Option Function}
    (h : Option.Rel Function.Interchangeable f? g?) (returns : ReturnKind) :
    f?.any (·.returns == returns) = g?.any (·.returns == returns) := by
  cases h with
  | none => rfl
  | some hSame => rw [Option.any_some, Option.any_some, hSame.returns]

namespace Model

variable {model model' : Model}

/-- The class of an expression depends on the types of its variables and on what its calls return.
-/
theorem classify_congr (hVariables : model.variableType = model'.variableType)
    (hCalls : model.returnsBool = model'.returnsBool) : model.classify = model'.classify := by
  funext scope e
  cases e with
  | literal pos value => cases value <;> rfl
  | var pos name => simp only [classify, hVariables]
  | call pos callee operands => simp only [classify, hCalls]
  | unary pos op operand => cases op <;> rfl
  | cast pos toBool operand => cases toBool <;> rfl
  | _ => rfl

theorem boolVariable?_congr (h : model.variableType = model'.variableType) :
    model.boolVariable? = model'.boolVariable? := by
  funext scope e
  rw [boolVariable?, boolVariable?, h]

theorem boolCall?_congr (h : model.returnsBool = model'.returnsBool) :
    model.boolCall? = model'.boolCall? := by
  funext scope e
  rw [boolCall?, boolCall?, h]

/-- The declarations of a call may differ where they are interchangeable. -/
theorem returnsBool_congr (h : ∀ callee scope, Option.Rel Function.Interchangeable
      (model.resolve? callee scope) (model'.resolve? callee scope)) :
    model.returnsBool = model'.returnsBool := by
  funext callee scope
  exact Function.Interchangeable.any_returns (h callee scope) .boolean

end Model

namespace ExprRule

/-- What a rule makes of an expression depends on nothing else in the model. -/
theorem finding?_congr {model model' : Model}
    (hVariables : model.variableType = model'.variableType)
    (hCalls : model.returnsBool = model'.returnsBool) :
    ∀ rule ∈ builtins, rule.finding? model = rule.finding? model' := by
  have hClassify := Model.classify_congr hVariables hCalls
  have hVariable := Model.boolVariable?_congr hVariables
  have hCall := Model.boolCall?_congr hCalls
  simp only [builtins, List.forall_mem_cons]
  refine ⟨?_, ?_, ?_, ?_, ?_, ?_, ?_, List.forall_mem_nil _⟩
  · simp only [bitwiseOnBoolean, hVariable]
  · simp only [incrementBoolean, hVariables]
  · simp only [assignBoolToPointer, hVariables]
  · simp only [boolExpressionWithInt, hClassify]
  · simp only [boolWithInt, hClassify]
  · simp only [functionReturningBool, hCall]
  · simp only [boolWithBool, hVariables]

/-- A rule reports the same in two files that it finds the same in, if they have the same roots and
the same name. -/
theorem check_congr {rule : ExprRule} {file file' : SourceFile}
    (hRule : rule.finding? file.model = rule.finding? file'.model)
    (hRoots : file.model.roots = file'.model.roots) (hName : file.name = file'.name) :
    rule.toRule.check file = rule.toRule.check file' := by
  simp only [toRule, findings_eq, findingsIn, hRule, hRoots, hName]

end ExprRule

/-- The file with further functions declared, one after the other. -/
def SourceFile.declareFunctions (file : SourceFile) (prototypes : List Prototype) : SourceFile :=
  { file with
    model := { file.model with symbols := file.model.symbols.declareFunctions prototypes } }

/-- Whatever the scopes, the variables and the functions that are there before, the order in which
functions are declared makes no difference: each call means a function of the same name and scope
that returns the same kind of value, or none, expressions are of the same class, and the rules find
and report the same. -/
theorem Registry.builtin_ignores_declaration_order (file : SourceFile)
    {first second : List Prototype} (h : first.Perm second) :
    let before := file.declareFunctions first
    let after := file.declareFunctions second
    (∀ callee scope, Option.Rel Function.Interchangeable (before.model.resolve? callee scope)
      (after.model.resolve? callee scope)) ∧
    (∀ scope e, before.model.classify scope e = after.model.classify scope e) ∧
    (∀ scope e, before.model.boolCall? scope e = after.model.boolCall? scope e) ∧
    (∀ rule ∈ ExprRule.builtins, rule.toRule.check before = rule.toRule.check after) ∧
    ∀ config, (Registry.builtin config).analyze before =
      (Registry.builtin config).analyze after := by
  intro before after
  have hCallee (callee : Callee) (scope : Nat) : Option.Rel Function.Interchangeable
      (before.model.resolve? callee scope) (after.model.resolve? callee scope) :=
    (SymbolTable.declaresAlike_of_perm h file.model.symbols).resolve? file.model.scopes callee scope
  have hCalls : before.model.returnsBool = after.model.returnsBool :=
    Model.returnsBool_congr hCallee
  have hVariables : before.model.variableType = after.model.variableType := by
    funext name scope
    simp only [before, after, SourceFile.declareFunctions, Model.variableType,
      SymbolTable.variableType_declareFunctions]
  have hCheck : ∀ rule ∈ ExprRule.builtins, rule.toRule.check before = rule.toRule.check after :=
    fun rule hRule =>
      ExprRule.check_congr (ExprRule.finding?_congr hVariables hCalls rule hRule) rfl rfl
  refine ⟨hCallee, fun scope e => by rw [Model.classify_congr hVariables hCalls],
    fun scope e => by rw [Model.boolCall?_congr hCalls], hCheck, fun config => ?_⟩
  have hRun : (Registry.builtin config).runAll before = (Registry.builtin config).runAll after := by
    refine List.flatMap_congr fun rule hRule => ?_
    obtain ⟨exprRule, hBuiltin, rfl⟩ := List.mem_map.mp (List.mem_filter.mp hRule).1
    simp only [run, hCheck exprRule hBuiltin]
  rw [analyze, analyze, hRun]
  rfl

/-- A prototype and a definition of `f` in either order: the call means one or the other, and
`f() > flag` is reported all the same. -/
theorem Registry.builtin_ignores_declaration_order_redeclared :
    let prototype : Prototype := ⟨"f", .boolean, Model.globalScope, 1⟩
    let definition : Prototype := ⟨"f", .boolean, Model.globalScope, 9⟩
    let file := SourceFile.withFlag (.binary ⟨2, 9⟩ .gt
      (.call ⟨2, 5⟩ (.unqualified "f") []) (.var ⟨2, 11⟩ "flag"))
    let before := file.declareFunctions [prototype, definition]
    let after := file.declareFunctions [definition, prototype]
    [prototype, definition].Perm [definition, prototype] ∧
      (before.model.resolve? (.unqualified "f") Model.globalScope).map Function.line = some 1 ∧
      (after.model.resolve? (.unqualified "f") Model.globalScope).map Function.line = some 9 ∧
      (Registry.builtin .all).analyze before = (Registry.builtin .all).analyze after ∧
      ((Registry.builtin .all).analyze after).map Diagnostic.ruleId = ["B006"] := by
  intro prototype definition file before after
  have hPerm : [prototype, definition].Perm [definition, prototype] := .swap _ _ _
  obtain ⟨-, -, -, -, hReport⟩ := Registry.builtin_ignores_declaration_order file hPerm
  exact ⟨hPerm, by decide, by decide, hReport .all, by decide +kernel⟩

end TruthLint
