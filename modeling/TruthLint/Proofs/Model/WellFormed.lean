import TruthLint.Proofs.Model.Extends
import TruthLint.Proofs.Model.Recording
import TruthLint.Proofs.Outline.Regular
import TruthLint.Proofs.Scope.Rooted

/-! Models that are recorded from trees. Whatever the tree, its scopes hang below the global one,
and everything that was recorded belongs to one of them. -/

namespace TruthLint.Model

variable {model : Model} {current : Nat}

/-- The scope is there, and the chain of scopes around it ends at the global one. -/
def Inside (model : Model) (scope : Nat) : Prop :=
  scope < model.scopes.size ∧ (model.scopes.ancestors scope).getLast? = some globalScope

/-- The scopes of the model form a tree below the global scope, in which a namespace is told from
the others of its scope by its name, and what was recorded lies in it. -/
structure WellFormed (model : Model) : Prop where
  global_exists : globalScope < model.scopes.size
  global_iff : ∀ {id : Nat} {scope : Scope}, model.scopes.get? id = some scope →
    (scope.kind = .global ↔ id = globalScope)
  outermost_iff : ∀ {id : Nat} {scope : Scope}, model.scopes.get? id = some scope →
    (scope.parent = none ↔ id = globalScope)
  parent : ∀ {id parent : Nat} {scope : Scope}, model.scopes.get? id = some scope →
    scope.parent = some parent → parent < id ∧ (model.scopes.children parent).count id = 1
  nameSpaces : ∀ {parent a b : Nat} {first second : Scope},
    a ∈ model.scopes.children parent → model.scopes.get? a = some first →
    b ∈ model.scopes.children parent → model.scopes.get? b = some second →
    first.kind = .nameSpace → second.kind = .nameSpace → first.name = second.name → a = b
  vars : ∀ v ∈ model.symbols.vars, model.Inside v.scope
  functions : ∀ f ∈ model.symbols.functions, model.Inside f.scope
  roots : ∀ root ∈ model.roots, model.Inside root.scope

/-- What recording keeps: a tree of scopes below the global one, and scopes that exist for
everything else. -/
structure Consistent (model : Model) : Prop where
  rooted : model.scopes.Rooted
  vars : ∀ v ∈ model.symbols.vars, v.scope < model.scopes.size
  functions : ∀ f ∈ model.symbols.functions, f.scope < model.scopes.size
  roots : ∀ root ∈ model.roots, root.scope < model.scopes.size

namespace Consistent

/-- The model that has the global scope and nothing else is consistent. -/
theorem initial : Model.initial.Consistent where
  rooted := .initial
  vars := List.forall_mem_nil _
  functions := List.forall_mem_nil _
  roots := by simp [Model.initial]

/-- A consistent model is well formed, since the chain of scopes around any one ends at the root of
the tree. -/
theorem wellFormed (h : model.Consistent) : model.WellFormed where
  global_exists := h.rooted.size_pos
  global_iff {id scope} hGet := by
    obtain ⟨root, hRoot, hKind, -⟩ := h.rooted.global
    refine ⟨fun hGlobal => ?_, fun hId => ?_⟩
    · by_contra hInner
      exact (h.rooted.inner hGet hInner).1 hGlobal
    · rw [hId, globalScope, hRoot] at hGet
      exact Option.some.inj hGet ▸ hKind
  outermost_iff {id scope} hGet := by
    obtain ⟨root, hRoot, -, hParent⟩ := h.rooted.global
    refine ⟨fun hNone => ?_, fun hId => ?_⟩
    · by_contra hInner
      exact (h.rooted.inner hGet hInner).2 hNone
    · rw [hId, globalScope, hRoot] at hGet
      exact Option.some.inj hGet ▸ hParent
  parent {id parent scope} hGet hParent := by
    refine ⟨h.rooted.wellFormed.parent_lt ?_, h.rooted.count_children hGet hParent⟩
    rw [ScopeTree.parent?, hGet, Option.bind_some, hParent]
  nameSpaces {parent a b first second} hA hFirst hB hSecond hFirstKind hSecondKind hNames := by
    obtain ⟨scopeA, hGetA, hParentA⟩ := h.rooted.get?_of_mem_children hA
    obtain ⟨scopeB, hGetB, hParentB⟩ := h.rooted.get?_of_mem_children hB
    obtain rfl : scopeA = first := Option.some.inj (hGetA.symm.trans hFirst)
    obtain rfl : scopeB = second := Option.some.inj (hGetB.symm.trans hSecond)
    exact h.rooted.nameSpace_unique hFirst hSecond hFirstKind hSecondKind
      (hParentA.trans hParentB.symm) hNames
  vars v hMem := ⟨h.vars v hMem, h.rooted.getLast?_ancestors (h.vars v hMem)⟩
  functions f hMem := ⟨h.functions f hMem, h.rooted.getLast?_ancestors (h.functions f hMem)⟩
  roots root hMem := ⟨h.roots root hMem, h.rooted.getLast?_ancestors (h.roots root hMem)⟩

/-- A variable may be declared in any scope that exists. -/
theorem declareVariable (h : model.Consistent) {name : String} {type : VariableType} {line : Nat}
    (hCurrent : current < model.scopes.size) :
    (model.declareVariable name type current line).Consistent :=
  { h with vars := List.forall_mem_cons.mpr ⟨hCurrent, h.vars⟩ }

theorem declareFunction (h : model.Consistent) {name : String} {returns : ReturnKind} {line : Nat}
    (hCurrent : current < model.scopes.size) :
    (model.declareFunction name returns current line).Consistent :=
  { h with functions := List.forall_mem_cons.mpr ⟨hCurrent, h.functions⟩ }

theorem addRoot (h : model.Consistent) {root : Root} (hScope : root.scope < model.scopes.size) :
    (model.addRoot root).Consistent where
  rooted := h.rooted
  vars := h.vars
  functions := h.functions
  roots added hAdded := by
    rcases Array.mem_push.mp hAdded with hOld | rfl
    · exact h.roots added hOld
    · exact hScope

/-- The scope that is created is the one after the last. -/
theorem createScope (h : model.Consistent) (kind : ScopeKind) (name : Option String)
    {parent : Nat} (line : Nat) (hParent : parent < model.scopes.size) (hKind : kind ≠ .global)
    (hFree : kind = .nameSpace →
      ∃ text, name = some text ∧ model.scopes.findChild? parent text = none) :
    (model.createScope kind name parent line).Consistent ∧
      model.scopes.size < (model.createScope kind name parent line).scopes.size := by
  have hSize : (model.createScope kind name parent line).scopes.size = model.scopes.size + 1 :=
    ScopeTree.size_create
  refine ⟨⟨h.rooted.create hParent hKind hFree, fun v hMem => ?_, fun f hMem => ?_,
    fun root hMem => ?_⟩, ?_⟩
  all_goals rw [hSize]
  · exact Nat.lt_succ_of_lt (h.vars v hMem)
  · exact Nat.lt_succ_of_lt (h.functions f hMem)
  · exact Nat.lt_succ_of_lt (h.roots root hMem)
  · exact Nat.lt_succ_self _

theorem findChild?_lt_size (h : model.Consistent) {parent child : Nat} {name : String}
    (hFound : model.scopes.findChild? parent name = some child) : child < model.scopes.size := by
  obtain ⟨scope, hGet, -⟩ := h.rooted.get?_of_mem_children (List.mem_of_find?_eq_some hFound)
  exact ScopeTree.lt_size_of_get? hGet

/-- A namespace is created only if there is none of its name, so that names go on to tell namespaces
apart. -/
theorem openChild (h : model.Consistent) {parent : Nat} (hParent : parent < model.scopes.size)
    (name : String) (line : Nat) :
    (model.openChild parent name line).1.Consistent ∧
      (model.openChild parent name line).2 < (model.openChild parent name line).1.scopes.size := by
  unfold Model.openChild
  split
  next child hFound => exact ⟨h, h.findChild?_lt_size hFound⟩
  next hFree =>
    exact h.createScope .nameSpace (some name) line hParent (by decide)
      fun _ => ⟨name, rfl, hFree⟩

/-- A path leads to a scope that exists, and keeps the model consistent on the way. -/
theorem openPath (h : model.Consistent) {scope : Nat} (hScope : scope < model.scopes.size)
    (line : Nat) (path : List String) :
    (model.openPath scope line path).1.Consistent ∧
      (model.openPath scope line path).2 < (model.openPath scope line path).1.scopes.size := by
  induction path generalizing model scope with
  | nil => exact ⟨h, hScope⟩
  | cons name path ih =>
      obtain ⟨hChild, hLt⟩ := h.openChild hScope name line
      exact ih hChild hLt

/-- Wherever the name of a function sends it, its owner exists. -/
theorem declareNamed (h : model.Consistent) (hCurrent : current < model.scopes.size)
    (name : QualifiedName) (returns : ReturnKind) (line : Nat) :
    (model.declareNamed current name returns line).1.Consistent ∧
      (model.declareNamed current name returns line).2 <
        (model.declareNamed current name returns line).1.scopes.size := by
  obtain ⟨start, path, hPath, hStart⟩ := openOwner_eq_openPath model current line name
  have hLt : start < model.scopes.size := by
    rcases hStart with rfl | rfl | ⟨outer, segment, hFound⟩
    · exact h.rooted.size_pos
    · exact hCurrent
    · exact h.findChild?_lt_size hFound
  obtain ⟨hOwner, hOwnerLt⟩ := h.openPath hLt line path
  rw [← hPath] at hOwner hOwnerLt
  exact ⟨hOwner.declareFunction hOwnerLt, hOwnerLt⟩

end Consistent

mutual

/-- Recording a regular entry in a scope that exists keeps a model consistent. -/
theorem consistent_record {model : Model} {current : Nat} (h : model.Consistent)
    (hCurrent : current < model.scopes.size) :
    ∀ {entry : Entry}, entry.Regular → (record current model entry).Consistent
  | .var _ _ _, _ => h.declareVariable hCurrent
  | .function name returns line, _ => (h.declareNamed hCurrent name returns line).1
  | .root _ _, _ => h.addRoot hCurrent
  | .scope kind name line body, .scope notGlobal notNameSpace entries => by
      obtain ⟨hScope, hLt⟩ := h.createScope kind name line hCurrent notGlobal
        fun hKind => absurd hKind notNameSpace
      exact consistent_recordAll hScope hLt entries
  | .nameSpace path line body, .nameSpace entries => by
      obtain ⟨hScope, hLt⟩ := h.openPath hCurrent line path
      exact consistent_recordAll hScope hLt entries
  | .definition none name returns line body, .definition entries => by
      obtain ⟨hScope, hLt⟩ := h.createScope .function name line hCurrent (by decide) (by simp)
      exact consistent_recordAll hScope hLt entries
  | .definition (some declared) name returns line body, .definition entries => by
      obtain ⟨hOwner, hOwnerLt⟩ := h.declareNamed hCurrent declared returns line
      obtain ⟨hScope, hLt⟩ :=
        hOwner.createScope .function name line hOwnerLt (by decide) (by simp)
      exact consistent_recordAll hScope hLt entries

theorem consistent_recordAll {model : Model} {current : Nat} (h : model.Consistent)
    (hCurrent : current < model.scopes.size) :
    ∀ {entries : List Entry}, Outline.Regular entries →
      (recordAll current model entries).Consistent
  | [], _ => h
  | entry :: entries, hRegular => by
      obtain ⟨hEntry, hEntries⟩ := List.forall_mem_cons.mp hRegular
      have hNext := consistent_record h hCurrent hEntry
      have hLt := (extends_record current model entry).lt_size hCurrent
      exact consistent_recordAll hNext hLt hEntries

end

/-- The model of any tree is well formed. Reading a node, in whatever role, scope and model, only
adds to the model, and the scope in which it began is the current one again afterwards. -/
theorem ofTree_wellFormed (root : Cst.Node) :
    (ofTree root).WellFormed ∧
      ∀ (node : Cst.Node) (role : Role) (r : Recording),
        let visited := r.followAll (Outline.ofNode node role)
        visited.current = r.current ∧ r.model.Extends visited.model ∧
          visited.model = recordAll r.current r.model (Outline.ofNode node role) := by
  refine ⟨?_, fun node role r => ?_⟩
  · have hGlobal : globalScope < initial.scopes.size := by decide
    have hRegular := Outline.regular_ofNode root .members
    exact (consistent_recordAll .initial hGlobal hRegular).wellFormed
  · rw [Recording.followAll_eq]
    exact ⟨rfl, extends_recordAll r.current r.model _, rfl⟩

end TruthLint.Model
