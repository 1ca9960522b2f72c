import TruthLint.Model

/-! Models that differ only in the lines of their scopes. Recording looks for scopes by their names
and places and never by their lines, so such models stay alike, whatever is recorded in both. -/

namespace TruthLint

namespace ScopeTree

variable {tree : ScopeTree}

/-- The tree with every scope at line 0. -/
def withoutLines (tree : ScopeTree) : ScopeTree :=
  ⟨tree.scopes.map fun scope => { scope with line := 0 }⟩

@[simp] theorem size_withoutLines (tree : ScopeTree) : tree.withoutLines.size = tree.size :=
  Array.size_map

/-- A scope is found at its number, with its line forgotten. -/
@[simp] theorem get?_withoutLines (tree : ScopeTree) (id : Nat) :
    tree.withoutLines.get? id = (tree.get? id).map fun scope => { scope with line := 0 } :=
  Array.getElem?_map

/-- Lines have no part in which scope is around another one. -/
@[simp] theorem parent?_withoutLines (tree : ScopeTree) (id : Nat) :
    tree.withoutLines.parent? id = tree.parent? id := by
  rw [parent?, get?_withoutLines, Option.bind_map]
  rfl

@[simp] theorem children_withoutLines (tree : ScopeTree) (id : Nat) :
    tree.withoutLines.children id = tree.children id := by
  simp [children, Function.comp_def]

/-- A child is looked for by its kind and its name. -/
@[simp] theorem findChild?_withoutLines (tree : ScopeTree) (id : Nat) (name : String) :
    tree.withoutLines.findChild? id name = tree.findChild? id name := by
  simp [findChild?, Option.any_map, Scope.isContainer]

@[simp] theorem chain_withoutLines (tree : ScopeTree) (bound id : Nat) :
    tree.withoutLines.chain bound id = tree.chain bound id := by
  induction bound generalizing id with
  | zero => rfl
  | succ bound ih => simp only [chain, parent?_withoutLines, ih]

/-- So all searches outwards go through the same scopes. -/
@[simp] theorem ancestors_withoutLines (tree : ScopeTree) (id : Nat) :
    tree.withoutLines.ancestors id = tree.ancestors id :=
  chain_withoutLines tree (id + 1) id

/-- A scope is created in the same place, at whatever line. -/
theorem withoutLines_create (tree : ScopeTree) (kind : ScopeKind) (name : Option String)
    (parent : Option Nat) (line : Nat) :
    (tree.create kind name parent line).withoutLines =
      tree.withoutLines.create kind name parent 0 := by
  simp only [create, size_withoutLines]
  cases parent.filter (· < tree.size) with
  | none => simp [withoutLines]
  | some p =>
      simp only [withoutLines, Array.map_push, ScopeTree.mk.injEq]
      congr 1
      apply Array.ext_getElem?
      intro id
      simp only [Array.getElem?_map, Array.getElem?_modify]
      split
      · simp [Function.comp_def]
      · rfl

end ScopeTree

namespace Model

variable {model other : Model} {current : Nat}

/-- The models are the same, apart from the lines of their scopes. -/
structure SameButLines (model other : Model) : Prop where
  scopes : model.scopes.withoutLines = other.scopes.withoutLines
  symbols : model.symbols = other.symbols
  roots : model.roots = other.roots

namespace SameButLines

theorem refl (model : Model) : model.SameButLines model := ⟨rfl, rfl, rfl⟩

/-- There are as many scopes in the one model as in the other. -/
theorem size (h : model.SameButLines other) : model.scopes.size = other.scopes.size := by
  rw [← ScopeTree.size_withoutLines, h.scopes, ScopeTree.size_withoutLines]

/-- The same child is found in both. -/
theorem findChild? (h : model.SameButLines other) (parent : Nat) (name : String) :
    model.scopes.findChild? parent name = other.scopes.findChild? parent name := by
  rw [← ScopeTree.findChild?_withoutLines, h.scopes, ScopeTree.findChild?_withoutLines]

/-- The same scopes are around a scope in both. -/
theorem ancestors (h : model.SameButLines other) (scope : Nat) :
    model.scopes.ancestors scope = other.scopes.ancestors scope := by
  rw [← ScopeTree.ancestors_withoutLines, h.scopes, ScopeTree.ancestors_withoutLines]

/-- A scope may be created at different lines in the two. -/
theorem createScope (h : model.SameButLines other) (kind : ScopeKind) (name : Option String)
    (parent line line' : Nat) :
    (model.createScope kind name parent line).SameButLines
      (other.createScope kind name parent line') where
  scopes := by
    simp only [Model.createScope, ScopeTree.withoutLines_create, h.scopes]
  symbols := h.symbols
  roots := h.roots

/-- A variable has its own line, which must be the same. -/
theorem declareVariable (h : model.SameButLines other) (name : String) (type : VariableType)
    (scope line : Nat) :
    (model.declareVariable name type scope line).SameButLines
      (other.declareVariable name type scope line) where
  scopes := h.scopes
  symbols := by rw [Model.declareVariable, h.symbols]; rfl
  roots := h.roots

theorem declareFunction (h : model.SameButLines other) (name : String) (returns : ReturnKind)
    (scope line : Nat) :
    (model.declareFunction name returns scope line).SameButLines
      (other.declareFunction name returns scope line) where
  scopes := h.scopes
  symbols := by rw [Model.declareFunction, h.symbols]; rfl
  roots := h.roots

/-- Roots have no line apart from that of their expression. -/
theorem addRoot (h : model.SameButLines other) (root : Root) :
    (model.addRoot root).SameButLines (other.addRoot root) where
  scopes := h.scopes
  symbols := h.symbols
  roots := by rw [Model.addRoot, h.roots]; rfl

/-- The same scope is opened, also where it has to be created. -/
theorem openChild (h : model.SameButLines other) (parent : Nat) (name : String)
    (line line' : Nat) :
    (model.openChild parent name line).1.SameButLines (other.openChild parent name line').1 ∧
      (model.openChild parent name line).2 = (other.openChild parent name line').2 := by
  rw [Model.openChild, Model.openChild, h.findChild? parent name, h.size]
  cases other.scopes.findChild? parent name with
  | some child => exact ⟨h, rfl⟩
  | none => exact ⟨h.createScope .nameSpace (some name) parent line line', rfl⟩

/-- A path may be opened for declarations at different lines. It leads to the same scope in both
models. -/
theorem openPath (h : model.SameButLines other) (scope line line' : Nat) (path : List String) :
    (model.openPath scope line path).1.SameButLines (other.openPath scope line' path).1 ∧
      (model.openPath scope line path).2 = (other.openPath scope line' path).2 := by
  induction path generalizing model other scope with
  | nil => exact ⟨h, rfl⟩
  | cons name path ih =>
      obtain ⟨hOpened, hChild⟩ := h.openChild scope name line line'
      simp only [Model.openPath]
      rw [hChild]
      exact ih hOpened _

theorem openOwner (h : model.SameButLines other) (current line line' : Nat)
    (name : QualifiedName) :
    (model.openOwner current line name).1.SameButLines (other.openOwner current line' name).1 ∧
      (model.openOwner current line name).2 = (other.openOwner current line' name).2 := by
  simp only [Model.openOwner]
  cases name.path with
  | nil => exact ⟨h, rfl⟩
  | cons segment path =>
      simp only [h.ancestors, h.findChild?]
      split
      next child _ => exact h.openPath child line line' path
      next => exact h.openPath _ line line' (segment :: path)

/-- A function is declared in the same scope of both. -/
theorem declareNamed (h : model.SameButLines other) (current : Nat) (name : QualifiedName)
    (returns : ReturnKind) (line : Nat) :
    (model.declareNamed current name returns line).1.SameButLines
        (other.declareNamed current name returns line).1 ∧
      (model.declareNamed current name returns line).2 =
        (other.declareNamed current name returns line).2 := by
  obtain ⟨hOwner, hSame⟩ := h.openOwner current line line name
  simp only [Model.declareNamed, hSame, and_true]
  exact hOwner.declareFunction _ _ _ _

end SameButLines

mutual

/-- Recording the same entry keeps models alike. -/
theorem sameButLines_record {model other : Model} (h : model.SameButLines other)
    (current : Nat) :
    ∀ entry : Entry, (record current model entry).SameButLines (record current other entry)
  | .var name type line => h.declareVariable name type current line
  | .function name returns line => (h.declareNamed current name returns line).1
  | .root _ _ => h.addRoot _
  | .scope kind name line body => by
      rw [record, record, h.size]
      exact sameButLines_recordAll (h.createScope kind name current line line) _ body
  | .nameSpace path line body => by
      obtain ⟨hOpened, hScope⟩ := h.openPath current line line path
      simp only [record]
      rw [hScope]
      exact sameButLines_recordAll hOpened _ body
  | .definition none name _ line body => by
      simp only [record]
      rw [h.size]
      exact sameButLines_recordAll (h.createScope .function name current line line) _ body
  | .definition (some declared) name returns line body => by
      obtain ⟨hDeclared, hOwner⟩ := h.declareNamed current declared returns line
      simp only [record]
      rw [hDeclared.size, hOwner]
      exact sameButLines_recordAll (hDeclared.createScope .function name _ line line) _ body

theorem sameButLines_recordAll {model other : Model} (h : model.SameButLines other)
    (current : Nat) : ∀ entries : List Entry,
      (recordAll current model entries).SameButLines (recordAll current other entries)
  | [] => h
  | entry :: entries => sameButLines_recordAll (sameButLines_record h current entry) current entries

end

end Model

end TruthLint
