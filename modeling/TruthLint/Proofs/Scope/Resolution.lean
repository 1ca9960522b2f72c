import TruthLint.Proofs.Scope.History

/-! What names mean. The table answers each look-up as the history does: through the scopes around
a scope, or along a path of named scopes, whatever the order in which scopes and declarations come
into being. -/

namespace TruthLint

namespace History

open ScopeTree (Nearest)

variable {history : History}

theorem WellFormed.of_concat {event : ScopeEvent} (wf : WellFormed (history ++ [event])) :
    history.WellFormed := by
  intro id created parent hCreated hParent
  refine wf id created parent ?_ hParent
  rw [scopes_concat, List.getElem?_append_left (List.getElem?_eq_some_iff.mp hCreated).1]
  exact hCreated

/-- The tree is well formed even where the history is not. -/
theorem wellFormed_run (history : History) : history.run.1.WellFormed := by
  induction history using List.reverseRecOn with
  | nil => exact .empty
  | append_singleton history event ih =>
      rw [run_concat]
      cases event with
      | scope kind name parent line => exact ih.create
      | var name type owner line => exact ih
      | function name returns owner line => exact ih

theorem size_run (history : History) : history.run.1.size = history.scopes.length := by
  induction history using List.reverseRecOn with
  | nil => rfl
  | append_singleton history event ih =>
      rw [run_concat, scopes_concat, List.length_append, ← ih]
      cases event with
      | scope kind name parent line => exact ScopeTree.size_create
      | var name type owner line => rfl
      | function name returns owner line => rfl

/-- The new scope of a well-formed history gets the parent that it asks for. -/
theorem WellFormed.filter_parent {kind : ScopeKind} {name : Option String} {parent : Option Nat}
    {line : Nat} (wf : WellFormed (history ++ [.scope kind name parent line])) :
    parent.filter (· < (run history).1.size) = parent := by
  cases parent with
  | none => rfl
  | some p =>
      have hLast :
          (scopes (history ++ [.scope kind name (some p) line]))[(scopes history).length]? =
            some ⟨kind, name, some p⟩ := by
        rw [scopes_concat]
        exact List.getElem?_concat_length
      have hLt : p < (run history).1.size := by
        rw [size_run]
        exact wf _ _ p hLast rfl
      exact Option.filter_some_pos (by simpa using hLt)

/-- The tree keeps of each scope what it was created with. -/
theorem WellFormed.get?_run (wf : history.WellFormed) (id : Nat) :
    (history.run.1.get? id).map Scope.created = history.scopes[id]? := by
  induction history using List.reverseRecOn with
  | nil => rfl
  | append_singleton history event ih =>
      have hPrior := ih wf.of_concat
      rw [run_concat, scopes_concat]
      cases event with
      | var name type owner line => simpa [ScopeEvent.scopeOf?, ScopeEvent.apply] using hPrior
      | function name returns owner line =>
          simpa [ScopeEvent.scopeOf?, ScopeEvent.apply] using hPrior
      | scope kind name parent line =>
          simp only [ScopeEvent.apply, ScopeEvent.scopeOf?, Option.toList_some]
          rcases Nat.lt_trichotomy id (run history).1.size with hOld | rfl | hNone
          · rw [ScopeTree.get?_create_of_lt hOld, Option.map_map,
              List.getElem?_append_left (by rwa [← size_run]), ← hPrior]
            congr 1
            funext scope
            simp only [Function.comp_apply]
            split <;> rfl
          · rw [ScopeTree.get?_create_size, wf.filter_parent, size_run]
            exact List.getElem?_concat_length.symm
          · have hSize : (scopes history).length < id := by rwa [← size_run]
            rw [ScopeTree.get?_eq_none_of_le (by rw [ScopeTree.size_create]; omega),
              List.getElem?_eq_none (by simp; omega)]
            rfl

/-- The scope around a scope is the one that was named when it was created. -/
theorem WellFormed.parent?_run (wf : history.WellFormed) :
    history.run.1.parent? = history.parent? := by
  funext id
  rw [ScopeTree.parent?, parent?, ← wf.get?_run id, Option.bind_map]
  rfl

/-- The named containers of the tree are those of the history. -/
theorem WellFormed.namedChild_iff (wf : history.WellFormed) {scope child : Nat} {name : String} :
    history.NamedChild scope name child ↔
      history.run.1.parent? child = some scope ∧
        (history.run.1.get? child).any (·.isContainer name) = true := by
  unfold NamedChild ScopeTree.parent? Scope.isContainer
  rw [← wf.get?_run child]
  cases history.run.1.get? child with
  | none => simp
  | some s => simp [Scope.created]

/-- A name leads down to the oldest scope that has it. -/
theorem WellFormed.findChild?_run (wf : history.WellFormed) {scope child : Nat} {name : String} :
    history.run.1.findChild? scope name = some child ↔
      history.NamedChild scope name child ∧
        ∀ other, history.NamedChild scope name other → child ≤ other := by
  rw [history.wellFormed_run.findChild?_eq_some_iff, ← wf.namedChild_iff]
  simp only [wf.namedChild_iff, and_imp]

/-- Descending a path of the tree is following it in the history. -/
theorem WellFormed.descend?_run (wf : history.WellFormed) {start target : Nat}
    {path : List String} :
    history.run.1.descend? start path = some target ↔ history.Leads start path target := by
  induction path generalizing start with
  | nil =>
      constructor
      · intro h
        cases h
        exact .nil target
      · rintro ⟨⟩
        rfl
  | cons name path ih =>
      rw [ScopeTree.descend?_cons]
      constructor
      · intro h
        obtain ⟨child, hChild, hRest⟩ := Option.bind_eq_some_iff.mp h
        obtain ⟨named, first⟩ := wf.findChild?_run.mp hChild
        exact .cons named first (ih.mp hRest)
      · rintro (_ | ⟨named, first, rest⟩)
        exact Option.bind_eq_some_iff.mpr
          ⟨_, wf.findChild?_run.mpr ⟨named, first⟩, ih.mpr rest⟩

/-- A variable is looked up from inside outwards. The first scope that declares the name has it,
with its last declaration. -/
theorem WellFormed.lookupVariable?_run (wf : history.WellFormed) {name : String} {scope : Nat}
    {v : Variable} :
    history.run.2.lookupVariable? history.run.1 name scope = some v ↔
      ∃ owner, Nearest history.parent? (history.DeclaresVariable name) scope owner ∧
        history.LastVariable name owner v := by
  rw [SymbolTable.lookupVariable?, history.wellFormed_run.findSome?_ancestors_eq_some_iff,
    wf.parent?_run]
  simp only [history.variableIn?_eq_some_iff,
    ScopeTree.nearest_congr (history.isSome_variableIn? name)]

theorem WellFormed.resolve?_unqualified_run (wf : history.WellFormed) {name : String}
    {scope : Nat} {f : Function} :
    history.run.2.resolve? history.run.1 (.unqualified name) scope = some f ↔
      history.Resolves scope f (.unqualified name) := by
  have hNearest (owner : Nat) :
      ((history.run.1.ancestors scope).find? fun s =>
          !(history.run.2.functionsIn name s).isEmpty) = some owner ↔
        Nearest history.parent? (history.DeclaresFunction name) scope owner := by
    rw [history.wellFormed_run.find?_ancestors_eq_some_iff, wf.parent?_run]
    apply ScopeTree.nearest_congr
    intro s
    rw [Bool.not_eq_true', functionsIn_isEmpty_eq_false_iff]
  simp only [Resolves, SymbolTable.resolve?]
  constructor
  · intro h
    split at h
    case h_2 => cases h
    case h_1 owner hOwner =>
      exact ⟨owner, (hNearest owner).mp hOwner, history.agreed?_functionsIn_eq_some_iff.mp h⟩
  · rintro ⟨owner, nearest, agreed⟩
    rw [(hNearest owner).mpr nearest]
    exact history.agreed?_functionsIn_eq_some_iff.mpr agreed

/-- A path that starts at the global scope is followed from the first scope. -/
theorem WellFormed.resolve?_global_run (wf : history.WellFormed) {path : List String}
    {name : String} {scope : Nat} (hScope : scope < history.scopes.length) {f : Function} :
    history.run.2.resolve? history.run.1 (.qualified ⟨true, path, name⟩) scope = some f ↔
      history.Resolves scope f (.qualified ⟨true, path, name⟩) := by
  have hRoot : history.run.1.root? = some 0 := by
    rw [ScopeTree.root?, size_run]
    exact if_neg (by omega)
  simp only [Resolves, SymbolTable.resolve?, if_true, hRoot, Option.bind_some,
    Option.bind_eq_some_iff, wf.descend?_run, agreed?_functionsIn_eq_some_iff]

theorem WellFormed.resolve?_qualified_run (wf : history.WellFormed) {path : List String}
    {name : String} {scope : Nat} {f : Function} :
    history.run.2.resolve? history.run.1 (.qualified ⟨false, path, name⟩) scope = some f ↔
      history.Resolves scope f (.qualified ⟨false, path, name⟩) := by
  have hLeads (s : Nat) : (history.run.1.descend? s path).isSome = true ↔
      ∃ target, history.Leads s path target := by
    simp only [Option.isSome_iff_exists, wf.descend?_run]
  simp only [Resolves, SymbolTable.resolve?, Bool.false_eq_true, if_false,
    Option.bind_eq_some_iff, history.wellFormed_run.findSome?_ancestors_eq_some_iff,
    wf.parent?_run, ScopeTree.nearest_congr hLeads, wf.descend?_run,
    agreed?_functionsIn_eq_some_iff]
  constructor
  · rintro ⟨owner, ⟨start, nearest, leads⟩, agreed⟩
    exact ⟨start, owner, nearest, leads, agreed⟩
  · rintro ⟨start, owner, nearest, leads, agreed⟩
    exact ⟨owner, ⟨start, nearest, leads⟩, agreed⟩

/-- A nearest scope is one of those around the scope where the search starts. -/
theorem encloses_of_nearest {P : Nat → Prop} {scope found : Nat}
    (h : Nearest history.parent? P scope found) : history.Encloses scope found := by
  induction h with
  | here holds => exact .refl
  | outer fails next rest ih => exact .head next ih

/-- The table answers every look-up in an existing scope as the history does, from whatever order
of creating scopes and declaring variables and functions it results. -/
theorem run_answers (history : History) (wf : history.WellFormed) (scope : Nat)
    (hScope : scope < history.scopes.length) :
    (∀ name v, history.run.2.lookupVariable? history.run.1 name scope = some v ↔
      ∃ owner, Nearest history.parent? (history.DeclaresVariable name) scope owner ∧
        history.LastVariable name owner v) ∧
    (∀ name, (∀ owner, history.Encloses scope owner → ¬history.DeclaresVariable name owner) →
      history.run.2.lookupVariable? history.run.1 name scope = none) ∧
    ∀ callee f, history.run.2.resolve? history.run.1 callee scope = some f ↔
      history.Resolves scope f callee := by
  refine ⟨fun name v => wf.lookupVariable?_run, ?_, ?_⟩
  · intro name hNone
    by_contra hSome
    obtain ⟨v, hv⟩ := Option.ne_none_iff_exists'.mp hSome
    obtain ⟨owner, nearest, -⟩ := wf.lookupVariable?_run.mp hv
    exact hNone owner (encloses_of_nearest nearest) nearest.holds
  · intro callee f
    cases callee with
    | unqualified name => exact wf.resolve?_unqualified_run
    | qualified name =>
        obtain ⟨_ | _, path, name⟩ := name
        · exact wf.resolve?_qualified_run
        · exact wf.resolve?_global_run hScope
    | member name => simp [SymbolTable.resolve?, Resolves]
    | other => simp [SymbolTable.resolve?, Resolves]

/-- A function in a namespace, with variables and functions that hide one another. -/
def shadowing : History :=
  [.scope .global none none 1, .scope .nameSpace (some "N") (some 0) 2,
    .scope .function none (some 1) 3, .var "b" .boolean 0 1, .var "b" .pointer 1 2,
    .var "b" .integer 1 3, .function "f" .boolean 0 1, .function "f" .boolean 1 2,
    .function "f" .other 1 3]

/-- In the function of `shadowing` the second variable of the namespace is meant, and a call of
`f` means nothing although the functions of the global scope agree. -/
theorem run_answers_shadowing :
    shadowing.WellFormed ∧ 2 < shadowing.scopes.length ∧
      (∃ owner, Nearest shadowing.parent? (shadowing.DeclaresVariable "b") 2 owner ∧
        shadowing.LastVariable "b" owner ⟨2, "b", 1, 3, .integer⟩) ∧
      (∀ f, ¬shadowing.Resolves 2 f (.unqualified "f")) ∧
      shadowing.Resolves 2 ⟨0, "f", 0, 1, .boolean⟩ (.qualified ⟨true, [], "f"⟩) := by
  have wf : shadowing.WellFormed := by
    intro id created parent hCreated hParent
    rcases id with _ | _ | _ | id
    · cases hCreated
      cases hParent
    · cases hCreated
      cases hParent
      decide
    · cases hCreated
      cases hParent
      decide
    · cases hCreated
  obtain ⟨hVariable, -, hCall⟩ := run_answers shadowing wf 2 (by decide)
  refine ⟨wf, by decide, (hVariable "b" _).mp (by decide), fun f hf => ?_,
    (hCall _ _).mp (by decide)⟩
  have hNone : shadowing.run.2.resolve? shadowing.run.1 (.unqualified "f") 2 = none := by decide
  rw [(hCall _ f).mpr hf] at hNone
  cases hNone

end History

end TruthLint
