import Mathlib.Data.List.Nodup
import TruthLint.Proofs.Scope.Ancestors

/-! Scope trees below a single global scope. Every other scope has a parent, so the chain around
any scope ends at the global one, and a namespace is created only where its name is free. -/

namespace TruthLint.ScopeTree

variable {tree : ScopeTree} {kind : ScopeKind} {name : Option String} {parent line : Nat}

theorem get?_isSome_iff {id : Nat} : (tree.get? id).isSome ↔ id < tree.size := by
  simp [get?, size]

theorem lt_size_of_get? {id : Nat} {scope : Scope} (h : tree.get? id = some scope) :
    id < tree.size :=
  get?_isSome_iff.mp (by rw [h]; rfl)

/-- A scope after the next one was created is that one, or an older one that may have one more
child. -/
theorem get?_create_cases {id : Nat} {scope : Scope} (hParent : parent < tree.size)
    (h : (tree.create kind name (some parent) line).get? id = some scope) :
    (id = tree.size ∧ scope = ⟨kind, name, some parent, [], line⟩) ∨
      ∃ old, tree.get? id = some old ∧ scope.kind = old.kind ∧ scope.name = old.name ∧
        scope.parent = old.parent := by
  rcases Nat.lt_trichotomy id tree.size with hOld | rfl | hNone
  · rw [get?_create_of_lt hOld, Option.map_eq_some_iff] at h
    obtain ⟨old, hGet, rfl⟩ := h
    refine .inr ⟨old, hGet, ?_⟩
    split <;> exact ⟨rfl, rfl, rfl⟩
  · have hKept : (some parent).filter (· < tree.size) = some parent := by
      simp [Option.filter, hParent]
    rw [get?_create_size, hKept] at h
    exact .inl ⟨rfl, (Option.some.inj h).symm⟩
  · have hSize := lt_size_of_get? h
    rw [size_create] at hSize
    omega

/-- Scope 0 is the only global scope and the only one without a parent, and the namespaces of a
scope have different names. -/
structure Rooted (tree : ScopeTree) : Prop where
  wellFormed : tree.WellFormed
  global : ∃ scope, tree.get? 0 = some scope ∧ scope.kind = .global ∧ scope.parent = none
  inner : ∀ {id : Nat} {scope : Scope}, tree.get? id = some scope → id ≠ 0 →
    scope.kind ≠ .global ∧ scope.parent ≠ none
  nameSpace_unique : ∀ {a b : Nat} {first second : Scope}, tree.get? a = some first →
    tree.get? b = some second → first.kind = .nameSpace → second.kind = .nameSpace →
    first.parent = second.parent → first.name = second.name → a = b

namespace Rooted

theorem initial : (empty.create .global none none 1).Rooted where
  wellFormed := WellFormed.empty.create
  global := ⟨_, rfl, rfl, rfl⟩
  inner {id scope} hGet hId := by
    have hSize := lt_size_of_get? hGet
    exact absurd (Nat.lt_one_iff.mp hSize) hId
  nameSpace_unique {a b first second} hFirst hSecond _ _ _ _ := by
    have hA : a = 0 := Nat.lt_one_iff.mp (lt_size_of_get? hFirst)
    have hB : b = 0 := Nat.lt_one_iff.mp (lt_size_of_get? hSecond)
    rw [hA, hB]

theorem size_pos (h : tree.Rooted) : 0 < tree.size := by
  obtain ⟨scope, hGet, -⟩ := h.global
  exact lt_size_of_get? hGet

/-- A child is listed by its parent, once. -/
theorem count_children (h : tree.Rooted) {id : Nat} {scope : Scope}
    (hGet : tree.get? id = some scope) (hParent : scope.parent = some parent) :
    (tree.children parent).count id = 1 := by
  have hId : id ∈ tree.children parent := by
    rw [h.wellFormed.children_eq, List.mem_filter, List.mem_range]
    exact ⟨lt_size_of_get? hGet, by simp [parent?, hGet, hParent]⟩
  have hNodup : (tree.children parent).Nodup := by
    rw [h.wellFormed.children_eq]
    exact List.nodup_range.filter _
  exact List.count_eq_one_of_mem hNodup hId

/-- A scope that is listed under another one exists and names that one as the scope around it. -/
theorem get?_of_mem_children (h : tree.Rooted) {id : Nat} (hId : id ∈ tree.children parent) :
    ∃ scope, tree.get? id = some scope ∧ scope.parent = some parent := by
  rw [h.wellFormed.children_eq, List.mem_filter, beq_iff_eq, parent?,
    Option.bind_eq_some_iff] at hId
  exact hId.2

/-- A name that is not found in a scope is free for a namespace. -/
theorem not_nameSpace_of_findChild? (h : tree.Rooted) {text : String}
    (hFree : tree.findChild? parent text = none) {id : Nat} {scope : Scope}
    (hGet : tree.get? id = some scope) (hParent : scope.parent = some parent)
    (hName : scope.name = some text) : scope.kind ≠ .nameSpace := by
  intro hKind
  have hId : id ∈ tree.children parent := by
    rw [← List.count_pos_iff, h.count_children hGet hParent]
    exact Nat.one_pos
  have hNot := List.find?_eq_none.mp hFree id hId
  simp [hGet, Scope.isContainer, hKind, hName] at hNot

/-- A new scope keeps the tree together if it is in an old one, is not global, and, as a namespace,
has a name that is free there. So it has the name of no older namespace next to it. -/
theorem create (h : tree.Rooted) (hParent : parent < tree.size) (hKind : kind ≠ .global)
    (hFree : kind = .nameSpace → ∃ text, name = some text ∧ tree.findChild? parent text = none) :
    (tree.create kind name (some parent) line).Rooted where
  wellFormed := h.wellFormed.create
  global := by
    obtain ⟨scope, hGet, hScope⟩ := h.global
    rw [get?_create_of_lt h.size_pos, hGet]
    refine ⟨_, rfl, ?_⟩
    split <;> exact hScope
  inner {id scope} hGet hId := by
    rcases get?_create_cases hParent hGet with ⟨-, rfl⟩ | ⟨old, hOld, hSame, -, hSameParent⟩
    · exact ⟨hKind, Option.some_ne_none _⟩
    · rw [hSame, hSameParent]
      exact h.inner hOld hId
  nameSpace_unique {a b first second} hFirst hSecond hFirstKind hSecondKind hParents hNames := by
    have hNew {id : Nat} {old : Scope} (hOld : tree.get? id = some old)
        (hOldKind : old.kind = .nameSpace) (hOldParent : old.parent = some parent)
        (hOldName : old.name = name) (hKind : kind = .nameSpace) : False := by
      obtain ⟨text, rfl, hText⟩ := hFree hKind
      exact h.not_nameSpace_of_findChild? hText hOld hOldParent hOldName hOldKind
    rcases get?_create_cases hParent hFirst with
      ⟨hA, rfl⟩ | ⟨old, hOld, hOldKind, hOldName, hOldParent⟩
    · rcases get?_create_cases hParent hSecond with
        ⟨hB, rfl⟩ | ⟨other, hOther, hOtherKind, hOtherName, hOtherParent⟩
      · rw [hA, hB]
      · exact (hNew hOther (hOtherKind ▸ hSecondKind) (hOtherParent ▸ hParents.symm)
          (hOtherName ▸ hNames.symm) hFirstKind).elim
    · rcases get?_create_cases hParent hSecond with
        ⟨hB, rfl⟩ | ⟨other, hOther, hOtherKind, hOtherName, hOtherParent⟩
      · exact (hNew hOld (hOldKind ▸ hFirstKind) (hOldParent ▸ hParents) (hOldName ▸ hNames)
          hSecondKind).elim
      · exact h.nameSpace_unique hOld hOther (hOldKind ▸ hFirstKind) (hOtherKind ▸ hSecondKind)
          (hOldParent ▸ hOtherParent ▸ hParents) (hOldName ▸ hOtherName ▸ hNames)

/-- The chain of scopes around any scope ends at the global one. -/
theorem getLast?_ancestors (h : tree.Rooted) {id : Nat} (hId : id < tree.size) :
    (tree.ancestors id).getLast? = some 0 := by
  obtain ⟨outermost, hLast, hNone⟩ := h.wellFormed.exists_outermost id
  have hLe := h.wellFormed.le_of_mem_ancestors (List.mem_of_getLast? hLast)
  obtain ⟨scope, hGet⟩ :=
    Option.isSome_iff_exists.mp (get?_isSome_iff.mpr (Nat.lt_of_le_of_lt hLe hId))
  have hZero : outermost = 0 := by
    by_contra hInner
    apply (h.inner hGet hInner).2
    simpa [parent?, hGet] using hNone
  rw [hLast, hZero]

end Rooted

end TruthLint.ScopeTree
