import TruthLint.Proofs.Model.Members
import TruthLint.Proofs.Model.ScopeLines
import TruthLint.Proofs.Outline.NamespaceName

/-! Definitions of namespaces. A namespace with several names in its head stands for namespaces one
inside the other, and a namespace that is opened again goes on where it ended. -/

namespace TruthLint

open Cst

/-- The definition of a namespace with this text for its name, if it has one. -/
structure DefinesNamespace (node : Node) (name : Option String) (body : Node) : Prop where
  isNamespace : node.kind = .namespaceDefinition
  child_name : (node.child? .name).map Node.text = name
  child_body : node.child? .body = some body

/-- Namespaces one inside the other, each with one of the names and all of them but the innermost
with nothing else in them. The body is that of the innermost. -/
inductive NestedNamespaces (body : Node) : List String → Node → Prop where
  | innermost {node : Node} {name : String} (defines : DefinesNamespace node (some name) body) :
      NestedNamespaces body [name] node
  | outer {node around inner : Node} {name : String} {names : List String}
      (defines : DefinesNamespace node (some name) around) (single : around.contents = [inner])
      (rest : NestedNamespaces body names inner) : NestedNamespaces body (name :: names) node

namespace Outline

theorem item_of_namespace {node : Node} (h : node.kind = .namespaceDefinition) :
    ofNode node .item = nameSpace node (partsOf node) := by
  rw [ofNode_eq, step, item, h]

/-- A namespace with a name contributes its members below the path that the name gives. -/
theorem ofNode_namespace {node body : Node} {name : String}
    (h : DefinesNamespace node (some name) body) :
    ofNode node .item = [.nameSpace (nameSpacePath name) (line node) (ofNode body .members)] := by
  obtain ⟨named, hNamed, hText⟩ := Option.map_eq_some_iff.mp h.child_name
  rw [item_of_namespace h.isNamespace, nameSpace, h.child_body, hNamed]
  simp [first_partsOf, h.child_body, hText]

/-- What an anonymous namespace contains belongs to the scope around it. -/
theorem ofNode_anonymous {node body : Node} (h : DefinesNamespace node none body) :
    ofNode node .item = ofNode body .members := by
  have hNone : node.child? .name = none := Option.map_eq_none_iff.mp h.child_name
  rw [item_of_namespace h.isNamespace, nameSpace, h.child_body, hNone]
  simp [first_partsOf, h.child_body]

end Outline

namespace Model

variable {model opened after : Model} {current owner line : Nat} {path : List String}

/-- A path that leads somewhere is followed without creating anything. -/
theorem openPath_of_descend? (line : Nat) (h : model.scopes.descend? current path = some owner) :
    model.openPath current line path = (model, owner) := by
  induction path generalizing current with
  | nil =>
      cases h
      rfl
  | cons name path ih =>
      rw [ScopeTree.descend?_cons, Option.bind_eq_some_iff] at h
      obtain ⟨child, hFound, hRest⟩ := h
      have hChild : model.openChild current name line = (model, child) := by
        rw [openChild, hFound]
      rw [openPath, hChild]
      exact ih hRest

/-- A path that was opened leads to the same scope when it is opened again later. -/
theorem openPath_again (h : model.Consistent) (hCurrent : current < model.scopes.size)
    (hAfter : (model.openPath current line path).1.Extends after) (line' : Nat) :
    after.openPath current line' path = (after, (model.openPath current line path).2) := by
  obtain ⟨hOpened, -⟩ := h.openPath hCurrent line path
  apply openPath_of_descend?
  exact hAfter.descend? hOpened.rooted (openPath_descend? h hCurrent line path)

/-- Reopening a namespace is concatenation: its contents may be split between two definitions of the
same name, whatever the first of them declares. -/
theorem recordAll_reopened (h : model.Consistent) (hCurrent : current < model.scopes.size)
    {name : Option String} {whole first second body bodyX bodyY : Node}
    (hWhole : DefinesNamespace whole name body) (hFirst : DefinesNamespace first name bodyX)
    (hSecond : DefinesNamespace second name bodyY)
    (hContents : body.contents = bodyX.contents ++ bodyY.contents)
    (hLine : Outline.line first = Outline.line whole) :
    recordAll current model (Outline.ofNode whole .item) =
      recordAll current (recordAll current model (Outline.ofNode first .item))
        (Outline.ofNode second .item) := by
  have hBody : Outline.ofNode body .members =
      Outline.ofNode bodyX .members ++ Outline.ofNode bodyY .members := by
    simp only [Outline.ofNode_members, hContents, List.flatMap_append]
  cases name with
  | none =>
      rw [Outline.ofNode_anonymous hWhole, Outline.ofNode_anonymous hFirst,
        Outline.ofNode_anonymous hSecond, hBody, recordAll_append]
  | some name =>
      let path := Outline.nameSpacePath name
      let opened := model.openPath current (Outline.line whole) path
      have hAgain := openPath_again h hCurrent
        (extends_recordAll opened.2 opened.1 (Outline.ofNode bodyX .members))
        (Outline.line second)
      rw [Outline.ofNode_namespace hWhole, Outline.ofNode_namespace hFirst,
        Outline.ofNode_namespace hSecond, hBody, hLine]
      simp only [recordAll, record, recordAll_append]
      rw [hAgain]

/-- The body of a namespace with these contents. -/
def namespaceBody (contents : List Node) : Node :=
  nodeOf (.other "declaration_list") (some .body) "" contents

def namespaceNode (name : String) (contents : List Node) : Node :=
  nodeOf .namespaceDefinition none ""
    [nodeOf (.other "namespace_identifier") (some .name) name [], namespaceBody contents]

theorem definesNamespace_node (name : String) (contents : List Node) :
    DefinesNamespace (namespaceNode name contents) (some name) (namespaceBody contents) :=
  ⟨rfl, rfl, rfl⟩

/-- `bool b;` -/
def flagDeclaration : Node :=
  nodeOf .declaration none "bool b;"
    [nodeOf .primitiveType (some .type) "bool" [], nodeOf .identifier (some .declarator) "b" []]

/-- `bool C::f();` -/
def memberPrototype : Node :=
  nodeOf .declaration none "bool C::f();"
    [nodeOf .primitiveType (some .type) "bool" [],
      nodeOf .functionDeclarator (some .declarator) "C::f()"
        [nodeOf .qualifiedIdentifier (some .declarator) "C::f" []]]

/-- The first part of the namespace declares a class of the same name and a function that asks for
a namespace inside it. -/
theorem recordAll_reopened_members :
    let contents := [memberClass "A", memberPrototype]
    let whole := recordAll globalScope initial
      (Outline.ofNode (namespaceNode "A::B" (contents ++ [flagDeclaration])) .item)
    whole.scopes.size = 5 ∧
      whole = recordAll globalScope
        (recordAll globalScope initial (Outline.ofNode (namespaceNode "A::B" contents) .item))
        (Outline.ofNode (namespaceNode "A::B" [flagDeclaration]) .item) := by
  refine ⟨by decide +kernel, ?_⟩
  have hGlobal : globalScope < initial.scopes.size := by decide
  exact recordAll_reopened .initial hGlobal (definesNamespace_node _ _) (definesNamespace_node _ _)
    (definesNamespace_node _ _) rfl rfl

/-- The last scopes of a model are namespaces of these names. -/
structure CreatesNamespaces (model opened : Model) (names : List String) : Prop where
  size : opened.scopes.size = model.scopes.size + names.length
  created : ∀ {i : Nat} {name : String}, names[i]? = some name → ∃ scope,
    opened.scopes.get? (model.scopes.size + i) = some scope ∧ scope.kind = .nameSpace ∧
      scope.name = some name

theorem CreatesNamespaces.nil (model : Model) : CreatesNamespaces model model [] where
  size := rfl
  created h := by cases h

/-- A namespace is created before those inside it, which come after it in the model. -/
theorem CreatesNamespaces.cons {name : String} {names : List String}
    (h : CreatesNamespaces (model.createScope .nameSpace (some name) current line) opened names)
    (hExtends : (model.createScope .nameSpace (some name) current line).Extends opened) :
    CreatesNamespaces model opened (name :: names) := by
  have hSize : (model.createScope .nameSpace (some name) current line).scopes.size =
      model.scopes.size + 1 := ScopeTree.size_create
  refine ⟨?_, fun {i other} hName => ?_⟩
  · rw [h.size, hSize, List.length_cons]
    omega
  · cases i with
    | zero =>
        cases hName
        have hNew : (model.createScope .nameSpace (some name) current line).scopes.get?
            model.scopes.size = some _ := ScopeTree.get?_create_size
        obtain ⟨more, hKept⟩ := hExtends.scopes hNew
        exact ⟨_, hKept, rfl, rfl⟩
    | succ i =>
        obtain ⟨scope, hGet, hScope⟩ := h.created hName
        rw [hSize, Nat.add_right_comm] at hGet
        exact ⟨scope, hGet, hScope⟩

/-- In a scope without children the whole path is created. -/
theorem createsNamespaces_openPath (hNone : model.scopes.children current = []) (line : Nat)
    (path : List String) :
    CreatesNamespaces model (model.openPath current line path).1 path := by
  induction path generalizing model current with
  | nil => exact .nil model
  | cons name path ih =>
      have hFree : model.scopes.findChild? current name = none := by
        rw [ScopeTree.findChild?, hNone, List.find?_nil]
      simp only [openPath, openChild, hFree]
      exact (ih ScopeTree.children_create_size).cons (.openPath _ _ _ _)

/-- Of the names of a path the first ones are followed, and the others are created. -/
theorem openPath_creates (model : Model) (current line : Nat) (path : List String) :
    ∃ existing missing, path = existing ++ missing ∧
      (model.scopes.descend? current existing).isSome ∧
        CreatesNamespaces model (model.openPath current line path).1 missing := by
  induction path generalizing current with
  | nil => exact ⟨[], [], rfl, rfl, .nil model⟩
  | cons name path ih =>
      cases hFound : model.scopes.findChild? current name with
      | some child =>
          obtain ⟨existing, missing, hPath, hExisting, hMissing⟩ := ih child
          refine ⟨name :: existing, missing, by rw [hPath, List.cons_append], ?_, ?_⟩
          · rw [ScopeTree.descend?_cons, hFound]
            exact hExisting
          · simp only [openPath, openChild, hFound]
            exact hMissing
      | none =>
          refine ⟨[], name :: path, rfl, rfl, ?_⟩
          simp only [openPath, openChild, hFound]
          apply CreatesNamespaces.cons (createsNamespaces_openPath _ line path) (.openPath _ _ _ _)
          exact ScopeTree.children_create_size

/-- The body of nested namespaces is recorded where the path of their names leads. -/
theorem recordAll_nested {other : Model} {body nested : Node} {names : List String}
    (h : NestedNamespaces body names nested)
    (hNames : ∀ name ∈ names, Outline.nameSpacePath name = [name])
    (hSame : model.SameButLines other) (current line : Nat) :
    ∃ opened, (model.openPath current line names).1.SameButLines opened ∧
      recordAll current other (Outline.ofNode nested .item) =
        recordAll (model.openPath current line names).2 opened (Outline.ofNode body .members) := by
  induction h generalizing model other current with
  | @innermost node name defines =>
      obtain ⟨hOpened, hOwner⟩ := hSame.openPath current line (Outline.line node) [name]
      refine ⟨_, hOpened, ?_⟩
      rw [Outline.ofNode_namespace defines, hNames name List.mem_cons_self, hOwner]
      rfl
  | @outer node around inner name names defines single rest ih =>
      obtain ⟨hOpened, hOwner⟩ := hSame.openPath current line (Outline.line node) [name]
      obtain ⟨opened, hInner, hRecorded⟩ :=
        ih (fun name hMem => hNames name (List.mem_cons_of_mem _ hMem)) hOpened
          (model.openPath current line [name]).2
      refine ⟨opened, hInner, ?_⟩
      have hBody : Outline.ofNode around .members = Outline.ofNode inner .item := by
        rw [Outline.ofNode_members, single, List.flatMap_singleton]
      rw [Outline.ofNode_namespace defines, hNames name List.mem_cons_self, hBody]
      change recordAll (other.openPath current (Outline.line node) [name]).2 _ _ = _
      rw [← hOwner]
      exact hRecorded

/-- What opening a path does to a model: nothing is declared, some of the names lead to scopes that
were there, the others are created, and all of them lead to the owner. -/
structure Opens (model opened : Model) (current : Nat) (path : List String) (owner : Nat) :
    Prop where
  declaresNothing : ∃ scopes, opened = { model with scopes := scopes }
  kept : model.Extends opened
  created : ∃ existing missing, path = existing ++ missing ∧
    (model.scopes.descend? current existing).isSome ∧ CreatesNamespaces model opened missing
  leads : model.Consistent → current < model.scopes.size →
    opened.scopes.descend? current path = some owner

/-- Whatever scopes are there, the names of a path that exist are followed and the others are
created. -/
theorem opens_openPath (model : Model) (current line : Nat) (path : List String) :
    Opens model (model.openPath current line path).1 current path
      (model.openPath current line path).2 where
  declaresNothing := openPath_eq_with model current line path
  kept := .openPath model current line path
  created := openPath_creates model current line path
  leads hModel hCurrent := openPath_descend? hModel hCurrent line path

/-- A namespace with several names in its head is shorthand for nested ones: both forms open the
same scopes and record the body there. -/
theorem nameSpace_nested {name : NamespaceName} (hUnmarked : name.Unmarked) {text : String}
    (hText : text.toList = name.text) {short nested body : Node}
    (hShort : DefinesNamespace short (some text) body)
    (hNested : NestedNamespaces body name.identifiers nested) (current : Nat) (model : Model) :
    (recordAll current model (Outline.ofNode short .item)).SameButLines
        (recordAll current model (Outline.ofNode nested .item)) ∧
      ∃ opened opened' owner, Opens model opened current name.identifiers owner ∧
        opened.SameButLines opened' ∧
        recordAll current model (Outline.ofNode short .item) =
          recordAll owner opened (Outline.ofNode body .members) ∧
        recordAll current model (Outline.ofNode nested .item) =
          recordAll owner opened' (Outline.ofNode body .members) := by
  let line := Outline.line short
  obtain ⟨opened', hSame, hLong⟩ := recordAll_nested hNested
    (fun _ => name.nameSpacePath_identifier) (.refl model) current line
  have hRead : recordAll current model (Outline.ofNode short .item) =
      recordAll (model.openPath current line name.identifiers).2
        (model.openPath current line name.identifiers).1 (Outline.ofNode body .members) := by
    rw [Outline.ofNode_namespace hShort, NamespaceName.nameSpacePath_eq hUnmarked hText]
    rfl
  refine ⟨?_, _, opened', _, opens_openPath model current line _, hSame, hRead, hLong⟩
  rw [hRead, hLong]
  exact sameButLines_recordAll hSame _ _

/-- The names of the scopes of a model, in the order of their creation. -/
def scopeNames (model : Model) : List (Option String) := model.scopes.scopes.toList.map Scope.name

/-- The names of scopes do not depend on their lines. -/
theorem SameButLines.scopeNames {other : Model} (h : model.SameButLines other) :
    scopeNames model = scopeNames other := by
  have hNames := congrArg (fun tree => tree.scopes.toList.map Scope.name) h.scopes
  simpa [Model.scopeNames, ScopeTree.withoutLines, Function.comp_def] using hNames

theorem blank_nil : ∀ c ∈ ([] : List Char), Text.isBlank c = true := List.forall_mem_nil _

theorem blank_space : ∀ c ∈ [' '], Text.isBlank c = true :=
  List.forall_mem_singleton.mpr (by decide)

/-- `A` in front of a double colon. -/
def segmentA (after : List Char) (hAfter : ∀ c ∈ after, Text.isBlank c = true) :
    NamespaceSegment where
  marker := none
  spaced := ⟨[], "A", after, by decide, by decide, blank_nil, hAfter⟩
  marker_blank := by simp
  marker_apart := by simp
  not_keyword := by simp

/-- ` B` after a double colon, or `inline B` if it is marked. -/
def segmentB (marker : Option (List Char))
    (hMarker : ∀ blanks ∈ marker, ∀ c ∈ blanks, Text.isBlank c = true) : NamespaceSegment where
  marker := marker
  spaced := ⟨[' '], "B", [], by decide, by decide, blank_space, blank_nil⟩
  marker_blank := hMarker
  marker_apart := by simp
  not_keyword := by decide

/-- `A :: B` -/
def spacedNamespace : NamespaceName where
  leading := [segmentA [' '] blank_space]
  last := segmentB none (by simp)
  first_unmarked := by simp [segmentA]

/-- `A::inline B` -/
def markedNamespace : NamespaceName where
  leading := [segmentA [] blank_nil]
  last := segmentB (some []) (by simp)
  first_unmarked := by simp [segmentA]

/-- One namespace inside the other. -/
def nestedNode (contents : List Node) : Node := namespaceNode "A" [namespaceNode "B" contents]

/-- The tree is one of two namespaces, one inside the other, with nothing else in the outer one. -/
theorem nestedNamespaces_node (contents : List Node) :
    NestedNamespaces (namespaceBody contents) ["A", "B"] (nestedNode contents) :=
  .outer (definesNamespace_node _ _) rfl (.innermost (definesNamespace_node _ _))

/-- The namespace `A` is there already, and `B` is created in it. -/
theorem nameSpace_nested_existing :
    let model := recordAll globalScope initial (Outline.ofNode (namespaceNode "A" []) .item)
    let short := namespaceNode "A :: B" [flagDeclaration]
    "A :: B".toList = spacedNamespace.text ∧ spacedNamespace.Unmarked ∧
      NestedNamespaces (namespaceBody [flagDeclaration]) spacedNamespace.identifiers
        (nestedNode [flagDeclaration]) ∧
      (recordAll globalScope model (Outline.ofNode short .item)).SameButLines
        (recordAll globalScope model (Outline.ofNode (nestedNode [flagDeclaration]) .item)) ∧
      scopeNames (recordAll globalScope model (Outline.ofNode short .item)) =
        [none, some "A", some "B"] := by
  intro model short
  have hText : "A :: B".toList = spacedNamespace.text := by decide
  have hUnmarked : spacedNamespace.Unmarked := by
    simp [NamespaceName.Unmarked, NamespaceName.segments, spacedNamespace, segmentA, segmentB]
  have hNested := nestedNamespaces_node [flagDeclaration]
  obtain ⟨hSame, -⟩ := nameSpace_nested hUnmarked hText (definesNamespace_node _ _) hNested
    globalScope model
  exact ⟨hText, hUnmarked, hNested, hSame, by decide +kernel⟩

/-- A marker in the name is taken for a part of it: `namespace A::inline B` creates a namespace with
the name `inline B`, where the nested form creates `B`. -/
theorem not_nameSpace_nested :
    let short := namespaceNode "A::inline B" [flagDeclaration]
    let nested := nestedNode [flagDeclaration]
    scopeNames (recordAll globalScope initial (Outline.ofNode short .item)) =
        [none, some "A", some "inline B"] ∧
      scopeNames (recordAll globalScope initial (Outline.ofNode nested .item)) =
        [none, some "A", some "B"] ∧
      ¬∀ {name : NamespaceName} {text : String} {short nested body : Node},
        text.toList = name.text → DefinesNamespace short (some text) body →
        NestedNamespaces body name.identifiers nested →
        (recordAll globalScope initial (Outline.ofNode short .item)).SameButLines
          (recordAll globalScope initial (Outline.ofNode nested .item)) := by
  intro short nested
  have hShort : scopeNames (recordAll globalScope initial (Outline.ofNode short .item)) =
      [none, some "A", some "inline B"] := by decide +kernel
  have hNested : scopeNames (recordAll globalScope initial (Outline.ofNode nested .item)) =
      [none, some "A", some "B"] := by decide +kernel
  refine ⟨hShort, hNested, ?_⟩
  intro hAll
  have hText : "A::inline B".toList = markedNamespace.text := by decide
  have hSame := hAll hText (definesNamespace_node "A::inline B" [flagDeclaration])
    (nestedNamespaces_node [flagDeclaration])
  have hNames := hSame.scopeNames
  rw [hShort, hNested] at hNames
  exact absurd hNames (by decide)

end Model

end TruthLint
