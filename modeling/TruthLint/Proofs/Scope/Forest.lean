import TruthLint.Proofs.Scope.Ancestors
import TruthLint.Proofs.Scope.Resolution

/-! Scopes as a forest. However scopes are created, with a parent that exists or with none, the
links to parents and the lists of children say the same, every chain of scopes comes to its end at
a scope without a parent, and following a path only leads further inside. -/

namespace TruthLint.History

/-- Scopes get their numbers in the order of their creation and keep what they were created with,
whatever is declared in between. Parents are older than their children, and the children of a scope
are listed in order; the root is the first scope. The chain around a scope goes from parent to
parent, to ever older scopes, until there is no parent. A path may be followed in two parts, and it
ends at a scope that has its start around it. -/
theorem run_forest (history : History) (wf : history.WellFormed) :
    let tree := history.run.1
    (∀ id, (tree.get? id).map Scope.created = history.scopes[id]?) ∧
    (∀ id parent, tree.parent? id = some parent → parent < id) ∧
    (∀ id, tree.children id =
      (List.range history.scopes.length).filter fun child => history.parent? child == some id) ∧
    tree.root? = history.scopes.head?.map (fun _ => 0) ∧
    (∀ id, (tree.ancestors id).head? = some id ∧
      (tree.ancestors id).IsChain (fun inner outer => history.parent? inner = some outer) ∧
      (tree.ancestors id).Pairwise (· > ·) ∧
      ∃ outermost, (tree.ancestors id).getLast? = some outermost ∧
        history.parent? outermost = none) ∧
    ∀ start first second,
      tree.descend? start (first ++ second) =
        (tree.descend? start first).bind (tree.descend? · second) ∧
      ∀ target, tree.descend? start first = some target → start ∈ tree.ancestors target := by
  intro tree
  have hTree : tree.WellFormed := history.wellFormed_run
  have hParent : tree.parent? = history.parent? := wf.parent?_run
  refine ⟨wf.get?_run, fun id parent => hTree.parent_lt, fun id => ?_, ?_, fun id => ?_,
    fun start first second => ⟨tree.descend?_append start first second, fun target => ?_⟩⟩
  · rw [hTree.children_eq, size_run, hParent]
  · rw [ScopeTree.root?, size_run]
    cases history.scopes <;> rfl
  · rw [← hParent]
    exact ⟨tree.head?_ancestors id, hTree.isChain_ancestors id, hTree.pairwise_ancestors id,
      hTree.exists_outermost id⟩
  · exact hTree.mem_ancestors_of_descend?

instance (history : History) : Decidable history.WellFormed :=
  decidable_of_iff (∀ id < history.scopes.length, ∀ parent ∈ history.parent? id, parent < id) <| by
    constructor
    · intro hAll id created parent hCreated hParent
      refine hAll id (List.getElem?_eq_some_iff.mp hCreated).1 parent ?_
      exact Option.bind_eq_some_iff.mpr ⟨created, hCreated, hParent⟩
    · intro wf id _ parent hParent
      obtain ⟨created, hCreated, hLink⟩ := Option.bind_eq_some_iff.mp hParent
      exact wf id created parent hCreated hLink

/-- `N::C` beside a namespace `M`, and a function in a second scope without a parent. -/
def twoTrees : History :=
  [.scope .global none none 1, .scope .nameSpace (some "N") (some 0) 2, .scope .block none none 3,
    .scope .classBody (some "C") (some 1) 4, .scope .function none (some 2) 5,
    .scope .nameSpace (some "M") (some 0) 6]

/-- The chain around the class of `twoTrees` ends at the first scope, that around the function at
the other one without a parent. -/
theorem run_forest_twoTrees :
    let tree := twoTrees.run.1
    twoTrees.WellFormed ∧ tree.children 0 = [1, 5] ∧ tree.root? = some 0 ∧
      tree.ancestors 3 = [3, 1, 0] ∧ tree.ancestors 4 = [4, 2] ∧
      (∃ outermost, (tree.ancestors 4).getLast? = some outermost ∧
        twoTrees.parent? outermost = none) ∧
      tree.descend? 0 (["N"] ++ ["C"]) = (tree.descend? 0 ["N"]).bind (tree.descend? · ["C"]) ∧
      tree.descend? 0 ["N", "C"] = some 3 ∧ 0 ∈ tree.ancestors 3 := by
  intro tree
  have wf : twoTrees.WellFormed := by decide
  obtain ⟨-, -, hChildren, hRoot, hChain, hPath⟩ := run_forest twoTrees wf
  obtain ⟨-, -, -, hEnd⟩ := hChain 4
  have hTarget : tree.descend? 0 ["N", "C"] = some 3 := by decide
  refine ⟨wf, (hChildren 0).trans (by decide), hRoot, by decide, by decide, hEnd,
    (hPath 0 ["N"] ["C"]).1, hTarget, (hPath 0 ["N", "C"] []).2 3 hTarget⟩

end TruthLint.History
