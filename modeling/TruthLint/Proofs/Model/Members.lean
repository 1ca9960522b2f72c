import TruthLint.Proofs.Expr.WrittenName
import TruthLint.Proofs.Model.Containers

/-! Classes and functions whose names are written with template arguments. The arguments are left
out on both sides, so a member and its definition outside the class meet in one scope, as long as
the arguments are no qualified names and the scope has no other container of that name. -/

namespace TruthLint

open Cst

theorem Outline.item_of_isClass {node : Node} (h : node.kind.isClass = true) (parts : Parts) :
    Outline.item node parts = Outline.classBody node parts := by
  unfold Kind.isClass at h
  split at h
  next hKind => rw [Outline.item, hKind]
  next hKind => rw [Outline.item, hKind]
  next hKind => rw [Outline.item, hKind]
  next => cases h

/-- A class with a body, in one of the places where it is read, and the name it is written with. -/
structure WrittenClass (name : WrittenName) where
  node : Node
  body : Node
  role : Role
  isClass : node.kind.isClass = true
  child_body : node.child? .body = some body
  child_name : ∃ named, node.child? .name = some named ∧ named.text.toList = name.text
  isRead : role = .item ∨ role = .typeSpecifier

namespace WrittenClass

variable {name : WrittenName}

def outline (written : WrittenClass name) : List Entry := Outline.ofNode written.node written.role

/-- The scope of a class has the identifier of the last segment for its name. -/
theorem outline_eq (written : WrittenClass name) (h : name.last.Plain) :
    written.outline =
      [.scope .classBody (some name.last.identifier) (Outline.line written.node)
        (Outline.ofNode written.body .members)] := by
  have hBody : written.outline = Outline.classBody written.node (Outline.partsOf written.node) := by
    rw [outline, Outline.ofNode_eq]
    rcases written.isRead with hRole | hRole
    · rw [hRole, Outline.step, Outline.item_of_isClass written.isClass]
    · rw [hRole, Outline.step, if_pos written.isClass]
  obtain ⟨named, hNamed, hText⟩ := written.child_name
  rw [hBody, Outline.classBody, written.child_body, hNamed]
  dsimp only
  rw [Outline.first_partsOf, written.child_body, Option.map_some, hText,
    WrittenName.dropTemplateArguments_lastSegment h, String.ofList_toList]
  simp

end WrittenClass

/-- What is read where a node names a function: a declarator without a body, or a definition. -/
inductive Outline.Declares (named : Node) : List Entry → Prop where
  | declaration (base : VariableType) (indirect : Bool) (line : Nat) :
      Declares named ((Declared.function named indirect line).entries base)
  | definition {node declarator : Node} {indirect : Bool}
      (isDefinition : node.kind = .functionDefinition)
      (isFunction : (node.child? .declarator).bind (functionDeclarator? false) =
        some (declarator, indirect))
      (hasName : declarator.child? .declarator = some named) :
      Declares named (ofNode node .item)

/-- A function that is declared, or defined, under a qualified name. -/
structure WrittenFunction (name : WrittenName) where
  named : Node
  outline : List Entry
  isQualified : named.kind = .qualifiedIdentifier
  text : named.text.toList = name.text
  declares : Outline.Declares named outline

/-- A function that is declared, or defined, directly in the body of a class. -/
structure WrittenMember (body : Node) (identifier : String) where
  named : Node
  outline : List Entry
  isIdentifier : named.kind = .identifier ∨ named.kind = .fieldIdentifier
  text : named.text = identifier
  declares : Outline.Declares named outline
  inside : outline <:+: Outline.ofNode body .members

namespace Model

variable {model later : Model} {current : Nat}

/-- A function is recorded in the scope that its name asks for, as the next one. -/
theorem recordAll_declares {named : Node} {entries : List Entry} {name : QualifiedName}
    (h : Outline.Declares named entries) (hName : QualifiedName.ofNode? named = some name)
    (current : Nat) (model : Model) :
    ∃ line, (model.openOwner current line name).1.Extends (recordAll current model entries) ∧
      ∃ f ∈ (recordAll current model entries).symbols.functions,
        f.id = model.symbols.functions.length ∧ f.name = name.name ∧
          f.scope = (model.openOwner current line name).2 := by
  obtain ⟨returns, line, hDeclared⟩ : ∃ returns line,
      (model.declareNamed current name returns line).1.Extends
        (recordAll current model entries) := by
    cases h with
    | declaration base indirect line =>
        rw [Declared.entries, hName]
        exact ⟨_, line, .refl _⟩
    | definition isDefinition isFunction hasName =>
        obtain ⟨scopeName, hOutline⟩ := Outline.ofNode_functionDefinition isDefinition isFunction
        rw [hOutline, hasName, Option.bind_some, hName]
        exact ⟨_, _, (Extends.createScope _ _ _ _ _).trans (extends_recordAll _ _ _)⟩
  obtain ⟨scopes, hOpened⟩ := openOwner_eq_with model current line name
  refine ⟨line, (Extends.declareFunction _ _ _ _ _).trans hDeclared, _,
    hDeclared.functions.mem List.mem_cons_self, ?_, rfl, rfl⟩
  exact congrArg (·.symbols.functions.length) hOpened

/-- What is recorded between other entries in a scope is recorded in some model in between. -/
theorem exists_recorded {part entries : List Entry} (h : part <:+: entries) (current : Nat)
    (model : Model) :
    ∃ between : Model,
      (recordAll current between part).Extends (recordAll current model entries) := by
  obtain ⟨earlier, others, rfl⟩ := h
  refine ⟨recordAll current model earlier, ?_⟩
  rw [recordAll_append, recordAll_append]
  exact extends_recordAll _ _ _

/-- A name that is qualified by a container of the current scope leads there. -/
theorem openOwner_of_findChild? {container : String} {owner : Nat} {name : QualifiedName}
    (hFound : model.scopes.findChild? current container = some owner) (line : Nat)
    (hGlobal : name.global = false) (hPath : name.path = [container]) :
    model.openOwner current line name = (model, owner) := by
  have hNearest : (model.scopes.ancestors current).findSome?
      (model.scopes.findChild? · container) = some owner := by
    rw [ScopeTree.ancestors, ScopeTree.chain, List.findSome?_cons, hFound]
  rw [openOwner, hPath, hGlobal]
  simp only [Bool.false_eq_true, if_false, hNearest]
  rfl

section

variable {name : WrittenName} (c : WrittenClass name)

theorem recordAll_class (h : name.last.Plain) (current : Nat) (model : Model) :
    recordAll current model c.outline =
      recordAll model.scopes.size
        (model.createScope .classBody (some name.last.identifier) current (Outline.line c.node))
        (Outline.ofNode c.body .members) := by
  rw [c.outline_eq h]
  rfl

theorem extends_class (h : name.last.Plain) (current : Nat) (model : Model) :
    (model.createScope .classBody (some name.last.identifier) current
      (Outline.line c.node)).Extends (recordAll current model c.outline) := by
  rw [recordAll_class c h]
  exact extends_recordAll _ _ _

theorem get?_class (h : name.last.Plain) (hCurrent : current < model.scopes.size) :
    ∃ scope, (recordAll current model c.outline).scopes.get? model.scopes.size = some scope ∧
      scope.kind = .classBody ∧ scope.name = some name.last.identifier ∧
        scope.parent = some current := by
  have hCreated : (model.createScope .classBody (some name.last.identifier) current
      (Outline.line c.node)).scopes.get? model.scopes.size = some _ := ScopeTree.get?_create_size
  obtain ⟨more, hGet⟩ := (extends_class c h current model).scopes hCreated
  exact ⟨_, hGet, rfl, rfl, by simp [Option.filter, hCurrent]⟩

/-- A member of a class is recorded in the scope of the class. -/
theorem member_of_class (h : name.last.Plain) {identifier : String}
    (m : WrittenMember c.body identifier) (current : Nat) (model : Model) :
    ∃ f ∈ (recordAll current model c.outline).symbols.functions,
      f.name = identifier ∧ f.scope = model.scopes.size := by
  have hName : QualifiedName.ofNode? m.named = some ⟨false, [], identifier⟩ := by
    have hText := m.text
    rcases m.isIdentifier with hKind | hKind
    · simp [QualifiedName.ofNode?, hKind, hText]
    · simp [QualifiedName.ofNode?, hKind, hText]
  rw [recordAll_class c h]
  obtain ⟨between, hInside⟩ := exists_recorded m.inside model.scopes.size
    (model.createScope .classBody (some name.last.identifier) current (Outline.line c.node))
  obtain ⟨line, -, f, hMem, -, hNamed, hScope⟩ :=
    recordAll_declares m.declares hName model.scopes.size between
  exact ⟨f, hInside.functions.mem hMem, hNamed, hScope⟩

end

/-- A function is recorded under the path of the identifiers in front of its own. -/
theorem function_under_path (hModel : model.Consistent) (hCurrent : current < model.scopes.size)
    {name : WrittenName} (f : WrittenFunction name) (h : name.Plain) :
    ∃ recorded ∈ (recordAll current model f.outline).symbols.functions,
      recorded.id = model.symbols.functions.length ∧ recorded.name = name.last.identifier ∧
        ∃ start, model.Start current name.global start ∧
          (recordAll current model f.outline).scopes.descend? start
            (name.leading.map Segment.identifier) = some recorded.scope := by
  have hName := WrittenName.ofNode?_eq_some h f.isQualified f.text
  obtain ⟨line, hExtends, recorded, hMem, hId, hNamed, hScope⟩ :=
    recordAll_declares f.declares hName current model
  obtain ⟨start, hStart, hPath⟩ := openOwner_descend? hModel hCurrent line name.qualified
  have hRooted : (model.openOwner current line name.qualified).1.scopes.Rooted :=
    (hModel.declareNamed hCurrent name.qualified .other line).1.rooted
  rw [← hScope] at hPath
  exact ⟨recorded, hMem, hId, hNamed, start, hStart, hExtends.descend? hRooted hPath⟩

/-- The definition of a member is recorded where a container of that name is found. -/
theorem function_in_container {s last : Segment} (f : WrittenFunction ⟨false, [s], last⟩)
    (hSegment : s.Plain) (hLast : last.Plain) {owner : Nat}
    (hFound : later.scopes.findChild? current s.identifier = some owner) :
    ∃ defined ∈ (recordAll current later f.outline).symbols.functions,
      defined.name = last.identifier ∧ defined.id = later.symbols.functions.length ∧
        defined.scope = owner := by
  have hPlain : WrittenName.Plain ⟨false, [s], last⟩ := by
    intro segment hMem
    rcases List.mem_pair.mp hMem with rfl | rfl
    · exact hSegment
    · exact hLast
  have hName := WrittenName.ofNode?_eq_some hPlain f.isQualified f.text
  obtain ⟨line, -, defined, hMem, hId, hNamed, hScope⟩ :=
    recordAll_declares f.declares hName current later
  rw [openOwner_of_findChild? hFound line rfl rfl] at hScope
  exact ⟨defined, hMem, hNamed, hId, hScope⟩

/-- Names with template arguments are recorded by the identifiers of their segments: a class scope
is named by the last one, a function is recorded under the path of the others, and a member that is
defined outside its class is recorded in the scope of the class, or of the first container in the
scope around with the same identifier. -/
theorem recorded_by_identifiers (hModel : model.Consistent)
    (hCurrent : current < model.scopes.size) :
    (∀ {name : WrittenName} (c : WrittenClass name), name.last.Plain →
      ∃ scope, (recordAll current model c.outline).scopes.get? model.scopes.size = some scope ∧
        scope.kind = .classBody ∧ scope.name = some name.last.identifier ∧
          scope.parent = some current) ∧
    (∀ {name : WrittenName} (f : WrittenFunction name), name.Plain →
      ∃ recorded ∈ (recordAll current model f.outline).symbols.functions,
        recorded.id = model.symbols.functions.length ∧ recorded.name = name.last.identifier ∧
          ∃ start, model.Start current name.global start ∧
            (recordAll current model f.outline).scopes.descend? start
              (name.leading.map Segment.identifier) = some recorded.scope) ∧
    (∀ {s last : Segment} (c : WrittenClass ⟨false, [], s⟩)
      (f : WrittenFunction ⟨false, [s], last⟩), WrittenMember c.body last.identifier →
      s.Plain → last.Plain →
      ∀ later : Model, (recordAll current model c.outline).Extends later →
        ∃ declared ∈ (recordAll current model c.outline).symbols.functions,
          ∃ defined ∈ (recordAll current later f.outline).symbols.functions,
            declared.name = last.identifier ∧ declared.scope = model.scopes.size ∧
              defined.name = last.identifier ∧ defined.id = later.symbols.functions.length ∧
                defined.scope =
                  (model.scopes.findChild? current s.identifier).getD declared.scope) := by
  refine ⟨fun {name} c hPlain => get?_class c hPlain hCurrent,
    fun {name} f hPlain => function_under_path hModel hCurrent f hPlain, ?_⟩
  intro s last c f m hSegment hLast later hLater
  have hPlain : (⟨false, [], s⟩ : WrittenName).last.Plain := hSegment
  obtain ⟨declared, hMem, hDeclaredName, hDeclaredScope⟩ := member_of_class c hPlain m current model
  have hCreated := hModel.createScope .classBody (some s.identifier) (Outline.line c.node) hCurrent
    (by decide) (by simp)
  have hFound := findChild?_createScope hModel.rooted hCurrent (.inr rfl) s.identifier
    (Outline.line c.node)
  have hKept := ((extends_class c hPlain current model).trans hLater).findChild? hCreated.1.rooted
    hFound
  obtain ⟨defined, hDefined, hName, hId, hScope⟩ := function_in_container f hSegment hLast hKept
  exact ⟨declared, hMem, defined, hDefined, hDeclaredName, hDeclaredScope,
    hName, hId, by rw [hScope, hDeclaredScope]⟩

/-- A named node without errors. -/
def nodeOf (kind : Kind) (field : Option Field) (text : String) (children : List Node) : Node :=
  .mk ⟨kind, field, true, false, false, false, 0, 0, .start, text⟩ children

def memberNode : Node := nodeOf .fieldIdentifier (some .declarator) "g" []

/-- The body of a class with a single member, `bool g();`. -/
def memberBody : Node :=
  nodeOf (.other "field_declaration_list") (some .body) "\x7b bool g(); \x7d"
    [nodeOf .fieldDeclaration none "bool g();"
      [nodeOf .primitiveType (some .type) "bool" [],
        nodeOf .functionDeclarator (some .declarator) "g()" [memberNode]]]

/-- The class of this name with the member. -/
def memberClass (name : String) : Node :=
  nodeOf .structSpecifier none ("struct " ++ name ++ " \x7b bool g(); \x7d")
    [nodeOf (.other "template_type") (some .name) name [], memberBody]

def memberName (name : String) : Node :=
  nodeOf .qualifiedIdentifier (some .declarator) (name ++ "::g") []

/-- The definition of the member outside the class of this name. -/
def memberDefinition (name : String) : Node :=
  nodeOf .functionDefinition none ("bool " ++ name ++ "::g() \x7b \x7d")
    [nodeOf .primitiveType (some .type) "bool" [],
      nodeOf .functionDeclarator (some .declarator) (name ++ "::g()") [memberName name],
      nodeOf .compoundStatement (some .body) "\x7b \x7d" []]

/-- Some classes with the member, and the definition of the member of one. -/
def memberFile (classes : List String) (name : String) : Node :=
  nodeOf (.other "translation_unit") none "" (classes.map memberClass ++ [memberDefinition name])

/-- Where the functions of a file are recorded, in the order of declaration. -/
def functionScopes (root : Node) : List Nat :=
  ((ofTree root).symbols.functions.map Function.scope).reverse

def segmentG : Segment := ⟨"g", none, by decide, by decide, by decide⟩

/-- `C<D<int>>` -/
def segmentNested : Segment := ⟨"C", some "D<int>", by decide, by decide, by decide⟩

/-- `C<a::b>` -/
def segmentQualified : Segment := ⟨"C", some "a::b", by decide, by decide, by decide⟩

def classOf (s : Segment) : WrittenClass ⟨false, [], s⟩ where
  node := memberClass (.ofList s.text)
  body := memberBody
  role := .item
  isClass := rfl
  child_body := rfl
  child_name := ⟨_, rfl, by simp [nodeOf, Node.text, Node.label, WrittenName.text]⟩
  isRead := .inl rfl

def definitionOf (s : Segment) : WrittenFunction ⟨false, [s], segmentG⟩ where
  named := memberName (.ofList s.text)
  outline := Outline.ofNode (memberDefinition (.ofList s.text)) .item
  isQualified := rfl
  text := by
    simp [memberName, nodeOf, Node.text, Node.label, WrittenName.text, segmentG, Segment.text,
      Segment.argumentList]
  declares := .definition rfl rfl rfl

def memberOf (s : Segment) : WrittenMember (classOf s).body segmentG.identifier where
  named := memberNode
  outline := (Declared.function memberNode false 1).entries .boolean
  isIdentifier := .inr rfl
  text := rfl
  declares := .declaration _ _ _
  inside := ⟨[], [], rfl⟩

/-- The class `C<D<int>>` with a member `g` that is defined as `C<D<int>>::g`. -/
theorem recorded_by_identifiers_nested :
    let read := recordAll globalScope initial (classOf segmentNested).outline
    segmentNested.text = "C<D<int>>".toList ∧
      (∃ scope, read.scopes.get? 1 = some scope ∧ scope.name = some "C") ∧
      (∃ f ∈ (recordAll globalScope initial (definitionOf segmentNested).outline).symbols.functions,
        f.name = "g") ∧
      ∃ declared ∈ read.symbols.functions, ∃ defined ∈
        (recordAll globalScope read (definitionOf segmentNested).outline).symbols.functions,
          declared.scope = 1 ∧ defined.scope = 1 := by
  intro read
  have hPlain : segmentNested.Plain := by decide
  have hGlobal : globalScope < initial.scopes.size := by decide
  obtain ⟨hClass, hFunction, hMember⟩ := recorded_by_identifiers .initial hGlobal
  obtain ⟨scope, hGet, -, hName, -⟩ := hClass (classOf segmentNested) hPlain
  obtain ⟨f, hMem, -, hNamed, -⟩ := hFunction (definitionOf segmentNested) (by decide)
  obtain ⟨declared, hDeclared, defined, hDefined, -, hInClass, -, -, hSame⟩ :=
    hMember (classOf segmentNested) (definitionOf segmentNested) (memberOf segmentNested) hPlain
      (by decide) read (.refl read)
  refine ⟨by decide, ⟨scope, hGet, hName⟩, ⟨f, hMem, hNamed⟩, declared, hDeclared, defined,
    hDefined, hInClass, ?_⟩
  rw [hSame, hInClass]
  rfl

/-- The conditions cannot be left out. A double colon among the arguments of `C<a::b>` is taken for
one between segments, so the class gets the name `b>` and its member the path of `C` and `b>`; and
after another class `C`, the definition of a member of `C<int>` is recorded there. -/
theorem not_recorded_by_identifiers :
    functionScopes (memberFile ["C<a::b>"] "C<a::b>") = [1, 3] ∧
      functionScopes (memberFile ["C", "C<int>"] "C<int>") = [1, 2, 1] ∧
      (¬∀ {name : WrittenName} (c : WrittenClass name), ∃ scope,
        (recordAll globalScope initial c.outline).scopes.get? initial.scopes.size = some scope ∧
          scope.name = some name.last.identifier) ∧
      ¬∀ {name : WrittenName} (f : WrittenFunction name),
        QualifiedName.ofNode? f.named = some name.qualified := by
  refine ⟨by decide +kernel, by decide +kernel, fun hAll => ?_, fun hAll => ?_⟩
  · obtain ⟨scope, hGet, hName⟩ := hAll (classOf segmentQualified)
    have hScope : ((recordAll globalScope initial
        (classOf segmentQualified).outline).scopes.get? initial.scopes.size).bind Scope.name =
          some "b>" := by decide +kernel
    rw [hGet, Option.bind_some, hName] at hScope
    exact absurd hScope (by decide)
  · have hNamed := hAll (definitionOf segmentQualified)
    have hPath : QualifiedName.ofNode? (definitionOf segmentQualified).named =
        some ⟨false, ["C", "b>"], "g"⟩ := by decide +kernel
    rw [hPath] at hNamed
    exact absurd hNamed (by decide)

end Model

end TruthLint
