import TruthLint.Proofs.Model.Members
import TruthLint.Proofs.Model.OwnRoots
import TruthLint.Proofs.Visit.Calls

/-! Variables that are declared in conditions. They belong to the block of the statement, and their
initializers are read as conditions. -/

namespace TruthLint

open Cst

/-- The condition of the statement is the declaration or has it as a part. -/
structure DeclaresInCondition (statement declaration : Node) : Prop where
  isStatement : statement.kind = .ifStatement ∨ statement.kind = .whileStatement ∨
    statement.kind = .switchStatement ∨ statement.kind = .forStatement
  isPart : ∃ condition, statement.child? .condition = some condition ∧
    (declaration = condition ∨
      condition.kind = .conditionClause ∧ declaration ∈ condition.contents)
  isDeclaration : declaration.kind = .declaration ∨ declaration.kind = .conditionDeclaration

/-- A variable that a declaration introduces with one of its declarators. -/
structure DeclaredVariable (declaration : Node) where
  declarator : Node
  earlier : List Node
  later : List Node
  inOrder : declaration.children.filter (Node.hasField .declarator) =
    earlier ++ declarator :: later
  /-- The declarator without its initializer. -/
  named : Node
  isNamed : named = declarator ∨
    declarator.kind = .initDeclarator ∧ declarator.child? .declarator = some named
  name : String
  type : VariableType
  pos : Position
  declares : Declared.ofNode (baseType declaration) named = .var name type pos

namespace DeclaredVariable

variable {declaration : Node} (v : DeclaredVariable declaration)

/-- The variable starts with a value, which belongs to its own declarator or to the declaration. -/
inductive StartsWith (value : Node) : Prop where
  | inDeclarator (isInit : v.declarator.kind = .initDeclarator)
      (child : v.declarator.child? .value = some value)
  | inDeclaration (isPlain : v.declarator.kind ≠ .initDeclarator)
      (child : declaration.child? .value = some value)

/-- The assignment of a value to the variable, as a condition. -/
def assignment (operator : Position) (value : Node) (scope : Nat) : Root :=
  ⟨.assign operator false (.var v.pos v.name) (.ofNode value), scope, .condition⟩

theorem child?_declarator (hInit : v.declarator.kind = .initDeclarator) :
    v.declarator.child? .declarator = some v.named := by
  rcases v.isNamed with hNamed | ⟨-, hChild⟩
  · have hUnnamed : Declared.ofNode (baseType declaration) v.declarator = .unnamed := by
      cases hNode : v.declarator with
      | mk label children =>
          rw [hNode] at hInit
          have hKind : label.kind = .initDeclarator := hInit
          rw [Declared.ofNode, hKind]
    have hDeclares := v.declares
    rw [hNamed, hUnnamed] at hDeclares
    cases hDeclares
  · exact hChild

/-- The outline of a declarator declares the variable before anything else. -/
theorem ofNode_declarator (context : RootContext) : ∃ later,
    Outline.ofNode v.declarator (.declarator (baseType declaration) context) =
      .var v.name v.type v.pos.line :: later := by
  rw [Outline.ofNode_eq, Outline.step]
  split
  next hInit =>
    rw [Outline.initDeclarator, v.child?_declarator hInit, Option.map_some, Option.getD_some,
      v.declares]
    exact ⟨_, rfl⟩
  next hPlain =>
    rcases v.isNamed with hNamed | ⟨hInit, -⟩
    · rw [← hNamed, v.declares]
      exact ⟨[], rfl⟩
    · exact absurd hInit hPlain

/-- An initializer in the declarator is evaluated as an assignment to the variable. -/
theorem ownRoots_declarator {value : Node} (hInit : v.declarator.kind = .initDeclarator)
    (hValue : v.declarator.child? .value = some value)
    (hExpression : value.kind.isExpression = true) (scope : Nat) : ∃ operator,
    Outline.ownRoots scope
        (Outline.ofNode v.declarator (.declarator (baseType declaration) .condition)) =
      [v.assignment operator value scope] := by
  refine ⟨(Outline.equalsPosition? v.declarator).getD value.position, ?_⟩
  rw [Outline.ofNode_eq, Outline.step, if_pos hInit, Outline.initDeclarator,
    v.child?_declarator hInit, Option.map_some, Option.getD_some, v.declares,
    Outline.ownRoots_append, Outline.ownRoots_entries, Outline.first_partsOf, hValue,
    Option.toList_some, List.flatMap_singleton, Declared.target?,
    Outline.ownRoots_initializer scope hExpression]
  rfl

end DeclaredVariable

namespace Outline

/-- A declaration that is a part of a condition. -/
theorem ofNode_tested {node : Node}
    (h : node.kind = .declaration ∨ node.kind = .conditionDeclaration) :
    ofNode node .tested =
      ((node.child? .type).toList.flatMap fun type => ofNode type .typeSpecifier) ++
        (node.children.filter (Node.hasField .declarator)).flatMap fun declarator =>
          ofNode declarator (.declarator (baseType node) .condition) := by
  have hTested : tested node (partsOf node) = declaration node (partsOf node) .condition := by
    rcases h with hKind | hKind
    · rw [tested, hKind]
    · rw [tested, hKind]
  rw [ofNode_eq, step, hTested, declaration, first_partsOf, each_partsOf]

/-- The condition of a statement is read in the block of the statement. Only a `for` statement reads
something before it. -/
theorem ofNode_statement {statement condition : Node}
    (h : statement.kind = .ifStatement ∨ statement.kind = .whileStatement ∨
      statement.kind = .switchStatement ∨ statement.kind = .forStatement)
    (hCondition : statement.child? .condition = some condition) :
    ∃ earlier later, ofNode statement .item =
      [.scope .block none (line statement)
        (earlier ++ (ofNode condition .condition ++ later))] := by
  have hRead : (partsOf statement).first .condition .condition = ofNode condition .condition := by
    rw [first_partsOf, hCondition, Option.toList_some, List.flatMap_singleton]
  rw [ofNode_eq, step, item]
  rcases h with hKind | hKind | hKind | hKind
  · simp only [hKind, hRead, block, List.append_assoc]
    exact ⟨[], _, rfl⟩
  · simp only [hKind, hRead, block]
    exact ⟨[], _, rfl⟩
  · simp only [hKind, hRead, block]
    exact ⟨[], _, rfl⟩
  · simp only [hKind, hRead, block, List.append_assoc]
    exact ⟨_, _, rfl⟩

end Outline

namespace Model

variable {root statement declaration : Node} {current : Nat} {before : Model}

/-- A declaration in a condition is read in the block that is created for the statement. One that is
the whole condition is read as it would be in a clause. -/
theorem Visits.inCondition (h : Visits root statement .item current before)
    (hDeclares : DeclaresInCondition statement declaration) :
    ∃ during, Visits root declaration .tested before.scopes.size during ∧
      (before.createScope .block none current (Outline.line statement)).Extends during := by
  obtain ⟨condition, hChild, hPart⟩ := hDeclares.isPart
  obtain ⟨earlier, later, hOutline⟩ := Outline.ofNode_statement hDeclares.isStatement hChild
  rw [Visits, hOutline] at h
  let created := before.createScope .block none current (Outline.line statement)
  have hEarlier : created.Extends (recordAll before.scopes.size created earlier) :=
    extends_recordAll _ _ earlier
  have hCondition : Reaches (Outline.ofNode condition .condition) before.scopes.size
      (recordAll before.scopes.size created earlier) globalScope initial (Outline.ofTree root) :=
    h.body.right.left
  rw [Outline.ofNode_eq, Outline.step] at hCondition
  rcases hPart with rfl | ⟨hClause, hMem⟩
  · have hNoClause : declaration.kind ≠ .conditionClause := by
      rcases hDeclares.isDeclaration with hKind | hKind
      · simp [hKind]
      · simp [hKind]
    rw [if_neg hNoClause] at hCondition
    refine ⟨_, ?_, hEarlier⟩
    rw [Visits, Outline.ofNode_eq, Outline.step]
    exact hCondition
  · rw [if_pos hClause, Outline.each_partsOf] at hCondition
    obtain ⟨during, hBetween, hReached⟩ :=
      Reaches.flatMap hMem (fun child => Outline.ofNode child .tested) before.scopes.size
        (recordAll before.scopes.size created earlier)
    exact ⟨during, hReached.trans hCondition, hEarlier.trans hBetween⟩

/-- What declarators of a condition evaluate in a scope, in order. -/
def declaratorRoots (declaration : Node) (scope : Nat) (declarators : List Node) : List Root :=
  declarators.flatMap fun node => Outline.ownRoots scope
    (Outline.ofNode node (.declarator (baseType declaration) .condition))

/-- The variable is declared in a scope. -/
def DeclaresVariable (final : Model) (v : DeclaredVariable declaration) (scope : Nat) : Prop :=
  ∃ id, ⟨id, v.name, scope, v.pos.line, v.type⟩ ∈ final.symbols.vars

/-- Reading the declaration in a scope evaluates the value there once, as an assignment to the
variable between what the other declarators evaluate, and the walks over the model come to all of
the assignment as part of a condition. -/
def AnalysesInitializer (root : Node) (v : DeclaredVariable declaration) (scope : Nat)
    (value : Node) : Prop :=
  ∃ during operator, Visits root declaration .tested scope during ∧
    (recordAll scope during (Outline.ofNode declaration .tested)).rootsIn scope =
      during.rootsIn scope ++ (declaratorRoots declaration scope v.earlier ++
        v.assignment operator value scope :: declaratorRoots declaration scope v.later) ∧
    v.assignment operator value scope ∈ (ofTree root).roots ∧
    ∀ part ∈ (v.assignment operator value scope).expr.observed,
      (⟨scope, true⟩, part.2) ∈ (ofTree root).calls

/-- Whatever a rule looks at in a root that is a condition, it is told that it is in one. -/
theorem calls_of_condition {model : Model} {root : Root} (h : root ∈ model.roots)
    (hContext : root.context = .condition) {part : List Nat × Expr}
    (hPart : part ∈ root.expr.observed) : (⟨root.scope, true⟩, part.2) ∈ model.calls := by
  refine List.mem_flatMap.mpr ⟨root, Array.mem_toList_iff.mpr h, List.mem_map.mpr ⟨part, hPart, ?_⟩⟩
  simp [hContext]

/-- The variable that a condition declares belongs to the block of the statement, and an
initializer in its declarator is analysed as a part of the condition. -/
theorem ofTree_analysesInitializer (hVisited : Visits root statement .item current before)
    (hDeclares : DeclaresInCondition statement declaration) (v : DeclaredVariable declaration) :
    (∃ scope, (ofTree root).scopes.get? before.scopes.size = some scope ∧ scope.kind = .block ∧
      scope.parent = some current ∧ scope.line = Outline.line statement) ∧
    DeclaresVariable (ofTree root) v before.scopes.size ∧
    ∀ {value : Node}, v.declarator.kind = .initDeclarator →
      v.declarator.child? .value = some value → value.kind.isExpression = true →
      AnalysesInitializer root v before.scopes.size value := by
  obtain ⟨during, hRead, hCreated⟩ := hVisited.inCondition hDeclares
  have hOutline := Outline.ofNode_tested hDeclares.isDeclaration
  rw [v.inOrder, List.flatMap_append, List.flatMap_cons] at hOutline
  refine ⟨?_, ?_, fun {value} hInit hValue hExpression => ?_⟩
  · have hBlock : (before.createScope .block none current (Outline.line statement)).scopes.get?
        before.scopes.size = some _ := ScopeTree.get?_create_size
    obtain ⟨more, hGet⟩ := (hCreated.trans (Reaches.kept_before hRead)).scopes hBlock
    exact ⟨_, hGet, rfl, by simp [Option.filter, hVisited.consistent.2], rfl⟩
  · obtain ⟨others, hDeclarator⟩ := v.ofNode_declarator .condition
    rw [hDeclarator, ← List.append_assoc] at hOutline
    have hReached := hRead
    rw [Visits, hOutline] at hReached
    exact ⟨_, hReached.right.var_mem⟩
  · obtain ⟨operator, hRoot⟩ :=
      v.ownRoots_declarator hInit hValue hExpression before.scopes.size
    have hRoots := hRead.rootsIn_eq
    rw [hOutline, Outline.ownRoots_append, Outline.ownRoots_append, Outline.ownRoots_append,
      Outline.ownRoots_types, hRoot, Outline.ownRoots_flatMap, Outline.ownRoots_flatMap,
      List.nil_append, List.singleton_append, ← hOutline] at hRoots
    have hAdded : v.assignment operator value before.scopes.size ∈
        (recordAll before.scopes.size during (Outline.ofNode declaration .tested)).rootsIn
          before.scopes.size := by
      rw [hRoots]
      simp
    have hMem : v.assignment operator value before.scopes.size ∈ (ofTree root).roots :=
      Array.mem_toList_iff.mp
        (hRead.kept.roots.mem (Array.mem_toList_iff.mpr (mem_roots_of_mem_rootsIn hAdded)))
    exact ⟨during, operator, hRead, hRoots, hMem, fun part => calls_of_condition hMem rfl⟩

/-- A file with an `if` statement whose condition is a clause with this declaration. -/
def conditionStatement (declaration : Node) : Node :=
  nodeOf .ifStatement none "" [nodeOf .conditionClause (some .condition) "" [declaration]]

def conditionFile (declaration : Node) : Node :=
  nodeOf (.other "translation_unit") none "" [conditionStatement declaration]

def variableNode : Node := nodeOf .identifier (some .declarator) "b" []

def startValue : Node := nodeOf .numberLiteral (some .value) "2" []

def startDeclarator : Node :=
  nodeOf .initDeclarator (some .declarator) "b = 2"
    [variableNode, nodeOf .equals none "=" [], startValue]

/-- The declaration `int b = 2` with the value in the declarator. -/
def initDeclaration : Node :=
  nodeOf .declaration none "int b = 2"
    [nodeOf .primitiveType (some .type) "int" [], startDeclarator]

/-- The declaration `int b = 2` with a value of its own. -/
def valueDeclaration : Node :=
  nodeOf .declaration (some .value) "int b = 2"
    [nodeOf .primitiveType (some .type) "int" [], variableNode, nodeOf .equals none "=" [],
      startValue]

def initVariable : DeclaredVariable initDeclaration where
  declarator := startDeclarator
  earlier := []
  later := []
  inOrder := rfl
  named := variableNode
  isNamed := .inr ⟨rfl, rfl⟩
  name := "b"
  type := baseType initDeclaration
  pos := .start
  declares := rfl

def valueVariable : DeclaredVariable valueDeclaration where
  declarator := variableNode
  earlier := []
  later := []
  inOrder := rfl
  named := variableNode
  isNamed := .inl rfl
  name := "b"
  type := baseType valueDeclaration
  pos := .start
  declares := rfl

theorem declaresInCondition_clause {declaration : Node} (hContent : declaration.isContent = true)
    (hKind : declaration.kind = .declaration) :
    DeclaresInCondition (conditionStatement declaration) declaration where
  isStatement := .inl rfl
  isPart := ⟨_, rfl, .inr ⟨rfl, List.mem_filter.mpr ⟨List.mem_cons_self, hContent⟩⟩⟩
  isDeclaration := .inl hKind

/-- The initializer of `if (int b = 2)` with the value in the declarator. -/
theorem ofTree_analysesInitializer_if :
    Visits (conditionFile initDeclaration) (conditionStatement initDeclaration) .item globalScope
        initial ∧
      DeclaresInCondition (conditionStatement initDeclaration) initDeclaration ∧
      initVariable.declarator.kind = .initDeclarator ∧
      initVariable.declarator.child? .value = some startValue ∧
      startValue.kind.isExpression = true ∧
      AnalysesInitializer (conditionFile initDeclaration) initVariable 1 startValue := by
  have hVisited : Visits (conditionFile initDeclaration) (conditionStatement initDeclaration) .item
      globalScope initial := .here []
  have hDeclares : DeclaresInCondition (conditionStatement initDeclaration) initDeclaration :=
    declaresInCondition_clause rfl rfl
  obtain ⟨-, -, hAnalysed⟩ := ofTree_analysesInitializer hVisited hDeclares initVariable
  exact ⟨hVisited, hDeclares, rfl, rfl, rfl, hAnalysed rfl rfl rfl⟩

/-- The initializer has to be in the declarator: where it belongs to the declaration, the variable
is declared and its value is passed over. -/
theorem not_ofTree_analysesInitializer :
    (ofTree (conditionFile valueDeclaration)).symbols.vars = [⟨0, "b", 1, 1, .integer⟩] ∧
      (ofTree (conditionFile valueDeclaration)).roots.size = 0 ∧
      ¬∀ {root statement declaration value : Node} {current : Nat} {before : Model}
        (v : DeclaredVariable declaration), Visits root statement .item current before →
        DeclaresInCondition statement declaration → v.StartsWith value →
        value.kind.isExpression = true →
        AnalysesInitializer root v before.scopes.size value := by
  have hNone : (ofTree (conditionFile valueDeclaration)).roots.size = 0 := by decide +kernel
  refine ⟨by decide +kernel, hNone, fun hAll => ?_⟩
  have hVisited : Visits (conditionFile valueDeclaration) (conditionStatement valueDeclaration)
      .item globalScope initial := .here []
  have hStarts : valueVariable.StartsWith startValue := .inDeclaration (by decide) rfl
  obtain ⟨during, operator, -, -, hRoot, -⟩ :=
    hAll valueVariable hVisited (declaresInCondition_clause rfl rfl) hStarts rfl
  rw [Array.eq_empty_of_size_eq_zero hNone] at hRoot
  exact Array.not_mem_empty _ hRoot

end Model

end TruthLint
