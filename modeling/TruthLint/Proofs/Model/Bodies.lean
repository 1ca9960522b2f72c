import TruthLint.Proofs.Model.Members
import TruthLint.Proofs.Model.Reached
import TruthLint.Proofs.Outline.Wrappers

/-! Bodies of functions. The body of a definition is read once its declarator is seen to declare a
function, and what its statements evaluate belongs to a function scope of the definition. -/

namespace TruthLint

open Cst

/-- Inside pointers, references, parentheses and attributes, the node is a function declarator. -/
inductive DeclaresFunction : Node → Prop where
  | function {node : Node} (isFunction : node.kind = .functionDeclarator) : DeclaresFunction node
  | pointer {node inner : Node} (isPointer : node.kind = .pointerDeclarator)
      (child : node.child? .declarator = some inner) (rest : DeclaresFunction inner) :
      DeclaresFunction node
  | wrapper {node inner : Node} (isWrapper : node.kind = .referenceDeclarator ∨
        node.kind = .parenthesizedDeclarator ∨ node.kind = .attributedDeclarator)
      (child : node.contents.head? = some inner) (rest : DeclaresFunction inner) :
      DeclaresFunction node

/-- Through all its wrappers a function declarator is found, whatever is noted on the way. -/
theorem DeclaresFunction.exists_declarator {node : Node} (h : DeclaresFunction node)
    (indirect : Bool) : ∃ declarator crossed,
      functionDeclarator? indirect node = some (declarator, crossed) := by
  induction h generalizing indirect with
  | @function node isFunction =>
      refine ⟨node, indirect, ?_⟩
      rw [functionDeclarator?_eq, isFunction]
  | @pointer node inner isPointer child _ ih =>
      obtain ⟨declarator, crossed, hInner⟩ := ih true
      refine ⟨declarator, crossed, ?_⟩
      rw [functionDeclarator?_eq, Node.wrapped?, isPointer]
      simp only [child, Option.bind_some, hInner]
  | @wrapper node inner isWrapper child _ ih =>
      obtain ⟨indirect', hPeeled⟩ : ∃ indirect',
          functionDeclarator? indirect node = functionDeclarator? indirect' inner := by
        rw [functionDeclarator?_eq]
        rcases isWrapper with hKind | hKind | hKind
        · exact ⟨true, by simp [Node.wrapped?, hKind, child]⟩
        · exact ⟨indirect, by simp [Node.wrapped?, hKind, child]⟩
        · exact ⟨indirect, by simp [Node.wrapped?, hKind, child]⟩
      rw [hPeeled]
      exact ih indirect'

namespace Outline

theorem item_of_isExpression {node : Node} (h : node.kind.isExpression = true) (parts : Parts) :
    item node parts = evaluated node parts .statement := by
  unfold item
  cases hKind : node.kind <;> simp_all [Kind.isExpression, Kind.isSkipped]

/-- An expression that stands for itself. -/
theorem ofNode_expression {node : Node} (h : node.kind.isExpression = true) :
    ofNode node .item =
      .root (.expression node) .statement :: lambdas node (partsOf node) := by
  rw [ofNode_eq, step, item_of_isExpression h, evaluated]

/-- A statement of a kind that decides nothing is read as its contents. -/
theorem ofNode_other {node : Node} {name : String} (h : node.kind = .other name) :
    ofNode node .item = node.contents.flatMap fun child => ofNode child .item := by
  rw [ofNode_eq, step, item, h]
  exact each_partsOf node Node.isContent .item

/-- The definition of a function with a body. -/
theorem ofNode_definition {node declarator body : Node} (hKind : node.kind = .functionDefinition)
    (hDeclarator : node.child? .declarator = some declarator)
    (hFunction : DeclaresFunction declarator) (hBody : node.child? .body = some body) :
    ∃ declared name returns parameters, ofNode node .item =
      [.definition declared name returns (line node) (parameters ++ ofNode body .members)] := by
  obtain ⟨function, crossed, hFound⟩ := hFunction.exists_declarator false
  have hDefines : (node.child? .declarator).bind (functionDeclarator? false) =
      some (function, crossed) := by
    rw [hDeclarator, Option.bind_some, hFound]
  obtain ⟨name, hOutline⟩ := ofNode_functionDefinition hKind hDefines
  rw [hOutline, functionContents, first_partsOf, hBody, Option.toList_some,
    List.flatMap_singleton]
  exact ⟨_, _, _, _, rfl⟩

end Outline

namespace Model

variable {model : Model}

/-- The scopes that are missing on a path are created as namespaces. -/
theorem openPath_created (model : Model) (scope line : Nat) (path : List String) {id : Nat}
    {created : Scope} (hNew : model.scopes.size ≤ id)
    (hGet : (model.openPath scope line path).1.scopes.get? id = some created) :
    created.kind = .nameSpace := by
  induction path generalizing model scope with
  | nil =>
      have hOld : id < model.scopes.size := ScopeTree.lt_size_of_get? hGet
      omega
  | cons name path ih =>
      rcases Nat.lt_or_ge id (model.openChild scope name line).1.scopes.size with hFirst | hLater
      · obtain ⟨first, hOpened, hKind⟩ : ∃ first,
            (model.openChild scope name line).1.scopes.get? id = some first ∧
              first.kind = .nameSpace := by
          unfold openChild at hFirst ⊢
          split at hFirst
          next => exact absurd hFirst (by dsimp only; omega)
          next =>
            have hSize : id = model.scopes.size := by
              have hCreated : id < model.scopes.size + 1 := by
                simpa [createScope, ScopeTree.size_create] using hFirst
              omega
            rw [hSize]
            exact ⟨_, ScopeTree.get?_create_size, rfl⟩
        obtain ⟨more, hKept⟩ := (Extends.openPath _ _ line path).scopes hOpened
        obtain rfl := Option.some.inj (hKept.symm.trans hGet)
        exact hKind
      · exact ih _ _ hLater hGet

/-- The first function scope that is created after `before` is that of a function at a line. -/
structure OpensFunction (before final : Model) (line id : Nat) : Prop where
  isNew : before.scopes.size ≤ id
  isFunction : ∃ scope, final.scopes.get? id = some scope ∧ scope.kind = .function ∧
    scope.line = line
  isFirst : ∀ {other : Nat} {scope : Scope}, before.scopes.size ≤ other → other < id →
    final.scopes.get? other = some scope → scope.kind ≠ .function

/-- What the statements of a body evaluate belongs to the function scope of its definition. -/
def AnalysesBody (before final : Model) (definition body : Node) : Prop :=
  ∃ id, OpensFunction before final (Outline.line definition) id ∧
    ∀ statement ∈ body.contents, statement.kind = .other "expression_statement" →
      ∀ expression ∈ statement.contents, expression.kind.isExpression = true →
        ⟨Expr.ofNode expression, id, .statement⟩ ∈ final.roots

/-- The contents of a definition are recorded in a function scope, before which only namespaces are
created. -/
theorem opensFunction_entered (current : Nat) (model : Model) (declared : Option QualifiedName)
    (name : Option String) (returns : ReturnKind) (line : Nat) (body : List Entry) {final : Model}
    (h : (entered current model (.definition declared name returns line body)).1.Extends final) :
    OpensFunction model final line
      (entered current model (.definition declared name returns line body)).2 := by
  obtain ⟨owned, owner, hEntered, hOwned, hCreated⟩ : ∃ (owned : Model) (owner : Nat),
      entered current model (.definition declared name returns line body) =
        (owned.createScope .function name owner line, owned.scopes.size) ∧
      model.Extends owned ∧ ∀ {id : Nat} {scope : Scope}, model.scopes.size ≤ id →
        owned.scopes.get? id = some scope → scope.kind = .nameSpace := by
    cases declared with
    | none =>
        refine ⟨model, current, rfl, .refl model, fun hNew hGet => ?_⟩
        have hOld := ScopeTree.lt_size_of_get? hGet
        omega
    | some declared =>
        refine ⟨_, _, rfl, .declareNamed model current declared returns line, fun hNew hGet => ?_⟩
        obtain ⟨start, path, hPath, -⟩ := openOwner_eq_openPath model current line declared
        refine openPath_created model start line path hNew ?_
        rw [← hPath]
        exact hGet
  rw [hEntered] at h ⊢
  have hOpened : (owned.createScope .function name owner line).scopes.get? owned.scopes.size =
      some _ := ScopeTree.get?_create_size
  refine ⟨hOwned.size_le, ?_, fun {other scope} hNew hOlder hGet => ?_⟩
  · obtain ⟨more, hKept⟩ := h.scopes hOpened
    exact ⟨_, hKept, rfl, rfl⟩
  · have hOld : owned.scopes.get? other = some _ := Array.getElem?_eq_getElem hOlder
    obtain ⟨more, hKept⟩ := ((Extends.createScope owned _ _ _ _).trans h).scopes hOld
    obtain rfl := Option.some.inj (hKept.symm.trans hGet)
    have hKind := hCreated hNew hOld
    simp [hKind]

/-- The expression of a statement in a body is reached when the body is. -/
theorem Reaches.expression {body statement expression : Node} {scope current : Nat}
    {before model : Model} {entries : List Entry}
    (h : Reaches (Outline.ofNode body .members) scope before current model entries)
    (hStatement : statement ∈ body.contents)
    (hKind : statement.kind = .other "expression_statement")
    (hContent : expression ∈ statement.contents)
    (hExpression : expression.kind.isExpression = true) :
    ⟨Expr.ofNode expression, scope, .statement⟩ ∈ (recordAll current model entries).roots := by
  rw [Outline.ofNode_members] at h
  obtain ⟨between, -, hReached⟩ :=
    Reaches.flatMap hStatement (fun child => Outline.ofNode child .item) scope before
  rw [Outline.ofNode_other hKind] at hReached
  obtain ⟨during, -, hRead⟩ :=
    Reaches.flatMap hContent (fun child => Outline.ofNode child .item) scope between
  have hRoot := (hRead.trans hReached).trans h
  rw [Outline.ofNode_expression hExpression] at hRoot
  exact hRoot.root_mem

/-- The body of a definition is analysed, wherever in the tree the definition is read and whatever
it declares, as long as its declarator is seen to declare a function. -/
theorem ofTree_analysesBody {root definition declarator body : Node} {scope : Nat} {before : Model}
    (hVisited : Visits root definition .item scope before)
    (hKind : definition.kind = .functionDefinition)
    (hDeclarator : definition.child? .declarator = some declarator)
    (hFunction : DeclaresFunction declarator) (hBody : definition.child? .body = some body) :
    AnalysesBody before (ofTree root) definition body := by
  obtain ⟨declared, name, returns, parameters, hOutline⟩ :=
    Outline.ofNode_definition hKind hDeclarator hFunction hBody
  let entry : Entry := .definition declared name returns (Outline.line definition)
    (parameters ++ Outline.ofNode body .members)
  have hReached : Reaches [entry] scope before globalScope initial (Outline.ofTree root) := by
    rw [Visits, hOutline] at hVisited
    exact hVisited
  have hBodyReached : Reaches (Outline.ofNode body .members) (entered scope before entry).2 _
      globalScope initial (Outline.ofTree root) := hReached.body.right
  have hEntered : (entered scope before entry).1.Extends (ofTree root) := hReached.body.kept_before
  refine ⟨(entered scope before entry).2, opensFunction_entered _ _ _ _ _ _ _ hEntered, ?_⟩
  intro statement hStatement hKind expression hContent hExpression
  exact hBodyReached.expression hStatement hKind hContent hExpression

def stepExpression : Node :=
  nodeOf .updateExpression none "x++"
    [nodeOf .identifier (some .argument) "x" [], nodeOf (.other "++") (some .operator) "++" []]

def stepStatement : Node := nodeOf (.other "expression_statement") none "x++;" [stepExpression]

def stepBody : Node := nodeOf .compoundStatement (some .body) "\x7b x++; \x7d" [stepStatement]

/-- The declarator of `bool &N::f() { x++; }`. -/
def referenceDeclarator : Node :=
  nodeOf .referenceDeclarator (some .declarator) "&N::f()"
    [nodeOf .functionDeclarator none "N::f()"
      [nodeOf .qualifiedIdentifier (some .declarator) "N::f" []]]

def referenceDefinition : Node :=
  nodeOf .functionDefinition none "bool &N::f() \x7b x++; \x7d"
    [nodeOf .primitiveType (some .type) "bool" [], referenceDeclarator, stepBody]

def referenceFile : Node := nodeOf (.other "translation_unit") none "" [referenceDefinition]

/-- The namespace `N` is created for the name, and the body belongs to the scope after it. -/
theorem ofTree_analysesBody_reference :
    Visits referenceFile referenceDefinition .item globalScope initial ∧
      DeclaresFunction referenceDeclarator ∧
      AnalysesBody initial (ofTree referenceFile) referenceDefinition stepBody ∧
      (ofTree referenceFile).roots.toList.map Root.scope = [2] := by
  have hVisited : Visits referenceFile referenceDefinition .item globalScope initial := .here []
  have hFunction : DeclaresFunction referenceDeclarator := .wrapper (.inl rfl) rfl (.function rfl)
  exact ⟨hVisited, hFunction, ofTree_analysesBody hVisited rfl rfl hFunction rfl,
    by decide +kernel⟩

/-- `operator bool() { x++; }` -/
def conversionDefinition : Node :=
  nodeOf .functionDefinition none "operator bool() \x7b x++; \x7d"
    [nodeOf (.other "operator_cast") (some .declarator) "operator bool()"
      [nodeOf .primitiveType (some .type) "bool" [],
        nodeOf (.other "abstract_function_declarator") (some .declarator) "()" []],
      stepBody]

/-- A class with a conversion operator. -/
def conversionFile : Node :=
  nodeOf (.other "translation_unit") none ""
    [nodeOf .structSpecifier none "struct S \x7b operator bool() \x7b x++; \x7d \x7d"
      [nodeOf .typeIdentifier (some .name) "S" [],
        nodeOf (.other "field_declaration_list") (some .body) "" [conversionDefinition]]]

/-- The condition on the declarator cannot be left out: the body of a conversion operator is passed
over, with every expression in it. -/
theorem not_ofTree_analysesBody :
    (ofTree conversionFile).roots.size = 0 ∧
      ¬∀ {root definition declarator body : Node} {scope : Nat} {before : Model},
        Visits root definition .item scope before → definition.kind = .functionDefinition →
        definition.child? .declarator = some declarator → definition.child? .body = some body →
        AnalysesBody before (ofTree root) definition body := by
  have hNone : (ofTree conversionFile).roots.size = 0 := by decide +kernel
  refine ⟨hNone, fun hAll => ?_⟩
  have hVisited : Visits conversionFile conversionDefinition .item 1
      (initial.createScope .classBody (some "S") globalScope 1) := .inside (.here [])
  obtain ⟨id, -, hRoots⟩ := hAll hVisited rfl rfl rfl
  have hRoot := hRoots stepStatement List.mem_cons_self rfl stepExpression List.mem_cons_self rfl
  rw [Array.eq_empty_of_size_eq_zero hNone] at hRoot
  exact Array.not_mem_empty _ hRoot

end Model

end TruthLint
