import Mathlib.Data.List.Chain
import Mathlib.Logic.Relation
import TruthLint.Proofs.Scope.Tree

/-! The chain of scopes around a scope. It goes from parent to parent, to ever older scopes, and
ends where there is no parent. Following a path of names only leads further inside. -/

namespace TruthLint.ScopeTree

variable {tree : ScopeTree}

theorem head?_ancestors (tree : ScopeTree) (id : Nat) : (tree.ancestors id).head? = some id :=
  rfl

/-- Each scope of a chain is the parent of the one before. -/
theorem WellFormed.isChain_ancestors (h : tree.WellFormed) (id : Nat) :
    (tree.ancestors id).IsChain fun inner outer => tree.parent? inner = some outer := by
  induction id using Nat.strongRecOn with
  | _ id ih =>
      rw [h.ancestors_eq]
      cases hParent : tree.parent? id with
      | none => exact .singleton id
      | some parent =>
          rw [Option.map_some, Option.getD_some, List.isChain_cons]
          refine ⟨fun outer hOuter => ?_, ih parent (h.parent_lt hParent)⟩
          obtain rfl : parent = outer := Option.some.inj hOuter
          exact hParent

/-- Outer scopes are older than the ones in them, so that their numbers go down. -/
theorem WellFormed.pairwise_ancestors (h : tree.WellFormed) (id : Nat) :
    (tree.ancestors id).Pairwise (· > ·) :=
  List.isChain_iff_pairwise.mp
    ((h.isChain_ancestors id).imp fun _ _ hParent => h.parent_lt hParent)

theorem WellFormed.le_of_mem_ancestors (h : tree.WellFormed) {id outer : Nat}
    (hOuter : outer ∈ tree.ancestors id) : outer ≤ id := by
  have hOrder := h.pairwise_ancestors id
  rw [h.ancestors_eq] at hOuter hOrder
  rcases List.mem_cons.mp hOuter with rfl | hOuter
  · exact Nat.le_refl _
  · exact Nat.le_of_lt (List.rel_of_pairwise_cons hOrder hOuter)

/-- The bound on the length of a chain never cuts it off. -/
theorem WellFormed.exists_outermost (h : tree.WellFormed) (id : Nat) :
    ∃ outermost, (tree.ancestors id).getLast? = some outermost ∧
      tree.parent? outermost = none := by
  induction id using Nat.strongRecOn with
  | _ id ih =>
      rw [h.ancestors_eq]
      cases hParent : tree.parent? id with
      | none => exact ⟨id, rfl, hParent⟩
      | some parent =>
          obtain ⟨outermost, hLast, hNone⟩ := ih parent (h.parent_lt hParent)
          rw [Option.map_some, Option.getD_some, List.getLast?_cons, hLast]
          exact ⟨outermost, rfl, hNone⟩

/-- The chain around a scope holds what is reached by going to parents, and nothing else. -/
theorem WellFormed.mem_ancestors_iff (h : tree.WellFormed) {id outer : Nat} :
    outer ∈ tree.ancestors id ↔
      Relation.ReflTransGen (fun inner parent => tree.parent? inner = some parent) id outer := by
  induction id using Nat.strongRecOn with
  | _ id ih =>
      rw [h.ancestors_eq, List.mem_cons, Relation.ReflTransGen.cases_head_iff, eq_comm]
      cases hParent : tree.parent? id with
      | none => simp
      | some parent => simp [ih parent (h.parent_lt hParent)]

/-- A path is followed part by part. -/
theorem descend?_append (tree : ScopeTree) (start : Nat) (first second : List String) :
    tree.descend? start (first ++ second) =
      (tree.descend? start first).bind (tree.descend? · second) :=
  List.foldlM_append

/-- A path leads from a scope to one inside it. -/
theorem WellFormed.mem_ancestors_of_descend? (h : tree.WellFormed) {start target : Nat}
    {path : List String} (hPath : tree.descend? start path = some target) :
    start ∈ tree.ancestors target := by
  induction path generalizing start with
  | nil =>
      cases hPath
      exact List.mem_cons_self
  | cons name path ih =>
      rw [descend?_cons, Option.bind_eq_some_iff] at hPath
      obtain ⟨child, hChild, hRest⟩ := hPath
      have hInside := h.mem_ancestors_iff.mp (ih hRest)
      exact h.mem_ancestors_iff.mpr (hInside.tail (h.findChild?_eq_some_iff.mp hChild).1.1)

end TruthLint.ScopeTree
