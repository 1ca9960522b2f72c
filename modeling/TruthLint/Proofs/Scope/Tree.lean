import Mathlib.Tactic.ByContra
import Mathlib.Tactic.SplitIfs
import TruthLint.Scope.Tree

/-! Scope trees that are built one scope at a time. A parent is older than its children, so the
chain of scopes around a scope ends, and the children of a scope are listed in the order in which
they were created. -/

namespace TruthLint.ScopeTree

variable {tree : ScopeTree} {kind : ScopeKind} {name : Option String} {parent : Option Nat}
  {line : Nat}

/-- The scopes after the next one is listed as a child of its parent. -/
def listed (tree : ScopeTree) : (parent : Option Nat) → Array Scope
  | some p =>
    tree.scopes.modify p fun scope => { scope with children := scope.children ++ [tree.size] }
  | none => tree.scopes

@[simp] theorem size_listed (tree : ScopeTree) (parent : Option Nat) :
    (tree.listed parent).size = tree.size := by
  cases parent with
  | none => rfl
  | some p => exact Array.size_modify

/-- A scope is listed under the one around it, and nothing else changes. -/
theorem getElem?_listed (tree : ScopeTree) (parent : Option Nat) (id : Nat) :
    (tree.listed parent)[id]? = (tree.get? id).map fun scope =>
      if parent = some id then { scope with children := scope.children ++ [tree.size] }
      else scope := by
  cases parent with
  | none => simp [listed, get?]
  | some p =>
      rw [listed, Array.getElem?_modify]
      by_cases hParent : p = id
      · simp [hParent, get?]
      · simp [hParent, get?]

/-- The new scope has the next number. The others are as they were, but for the list of the one
around it. -/
theorem get?_create (id : Nat) :
    (tree.create kind name parent line).get? id =
      if id = tree.size then some ⟨kind, name, parent.filter (· < tree.size), [], line⟩
      else (tree.listed (parent.filter (· < tree.size)))[id]? := by
  change ((tree.listed (parent.filter (· < tree.size))).push _)[id]? = _
  rw [Array.getElem?_push, size_listed]

theorem size_create : (tree.create kind name parent line).size = tree.size + 1 := by
  change ((tree.listed (parent.filter (· < tree.size))).push _).size = _
  rw [Array.size_push, size_listed]

theorem get?_eq_none_of_le {id : Nat} (h : tree.size ≤ id) : tree.get? id = none :=
  Array.getElem?_eq_none h

/-- The new scope gets the next number and has no children yet. -/
theorem get?_create_size :
    (tree.create kind name parent line).get? tree.size =
      some ⟨kind, name, parent.filter (· < tree.size), [], line⟩ := by
  rw [get?_create, if_pos rfl]

/-- An older scope changes only if it is the parent of the new one, and then by one more child. -/
theorem get?_create_of_lt {id : Nat} (h : id < tree.size) :
    (tree.create kind name parent line).get? id = (tree.get? id).map fun scope =>
      if parent = some id then { scope with children := scope.children ++ [tree.size] }
      else scope := by
  have hParent : parent.filter (· < tree.size) = some id ↔ parent = some id := by
    simp only [Option.filter_eq_some_iff, decide_eq_true_eq]
    exact ⟨fun hBoth => hBoth.1, fun hSome => ⟨hSome, h⟩⟩
  rw [get?_create, if_neg (Nat.ne_of_lt h), getElem?_listed]
  simp only [hParent]

/-- The new scope is in the one that is given for it, as long as there is such a scope. -/
theorem parent?_create_size :
    (tree.create kind name parent line).parent? tree.size = parent.filter (· < tree.size) := by
  rw [parent?, get?_create_size]
  rfl

theorem parent?_create_of_lt {id : Nat} (h : id < tree.size) :
    (tree.create kind name parent line).parent? id = tree.parent? id := by
  rw [parent?, parent?, get?_create_of_lt h, Option.bind_map]
  congr 1
  funext scope
  simp only [Function.comp_apply]
  split <;> rfl

theorem children_create_size : (tree.create kind name parent line).children tree.size = [] := by
  rw [children, get?_create_size]
  rfl

/-- A new scope is the last one that is listed in the scope around it. -/
theorem children_create_of_lt {id : Nat} (h : id < tree.size) :
    (tree.create kind name parent line).children id =
      tree.children id ++ if parent = some id then [tree.size] else [] := by
  rw [children, children, get?_create_of_lt h]
  obtain ⟨scope, hScope⟩ : ∃ scope, tree.get? id = some scope := ⟨_, Array.getElem?_eq_getElem h⟩
  rw [hScope]
  split_ifs with hParent
  · simp
  · simp

/-- What `create` keeps, whatever parent it is given. -/
structure WellFormed (tree : ScopeTree) : Prop where
  parent_lt : ∀ {id parent : Nat}, tree.parent? id = some parent → parent < id
  children_eq : ∀ id : Nat, tree.children id =
    (List.range tree.size).filter fun child => tree.parent? child == some id

theorem WellFormed.empty : WellFormed ScopeTree.empty where
  parent_lt := by simp [parent?, get?, ScopeTree.empty]
  children_eq := by simp [children, get?, size, ScopeTree.empty]

/-- A new scope is listed where it belongs, and it has a greater number than the scope around it.
Nothing is listed in it yet, as it has no older scope inside. -/
theorem WellFormed.create (h : tree.WellFormed) :
    (tree.create kind name parent line).WellFormed := by
  have hParent {id p : Nat} (hp : (tree.create kind name parent line).parent? id = some p) :
      p < id := by
    rcases Nat.lt_trichotomy id tree.size with hOld | rfl | hNone
    · rw [parent?_create_of_lt hOld] at hp
      exact h.parent_lt hp
    · rw [parent?_create_size, Option.filter_eq_some_iff] at hp
      exact of_decide_eq_true hp.2
    · rw [parent?, get?_eq_none_of_le (by rw [size_create]; omega)] at hp
      cases hp
  refine ⟨hParent, fun id => ?_⟩
  rcases Nat.lt_or_ge id tree.size with hOld | hNew
  · have hRange : ((List.range tree.size).filter fun child =>
          (tree.create kind name parent line).parent? child == some id) =
        (List.range tree.size).filter fun child => tree.parent? child == some id := by
      apply List.filter_congr
      intro child hChild
      rw [parent?_create_of_lt (List.mem_range.mp hChild)]
    have hLast : (parent.filter (· < tree.size) == some id) = decide (parent = some id) := by
      cases parent with
      | none => simp
      | some p => grind
    rw [size_create, List.range_succ, List.filter_append, hRange, children_create_of_lt hOld,
      h.children_eq, List.filter_cons, parent?_create_size, hLast]
    simp
  · have hNone : (tree.create kind name parent line).children id = [] := by
      rw [children, get?_create]
      split_ifs with hSize
      · rfl
      · rw [getElem?_listed, get?_eq_none_of_le hNew]
        rfl
    rw [hNone, eq_comm, List.filter_eq_nil_iff]
    intro child hChild hEq
    have hLt := hParent (beq_iff_eq.mp hEq)
    rw [List.mem_range, size_create] at hChild
    omega

/-- A bound past the number of a scope makes no difference to the chain around it. -/
theorem WellFormed.chain_eq_ancestors (h : tree.WellFormed) {bound id : Nat} (hBound : id < bound) :
    tree.chain bound id = tree.ancestors id := by
  induction bound using Nat.strongRecOn generalizing id with
  | _ bound ih =>
      cases bound with
      | zero => omega
      | succ bound =>
          rw [ancestors, chain, chain]
          cases hParent : tree.parent? id with
          | none => rfl
          | some p =>
              have hLt := h.parent_lt hParent
              simp only [ih bound (by omega) (by omega : p < bound), ih id hBound hLt]

/-- The scopes around a scope are itself and then those around the one that it is in. -/
theorem WellFormed.ancestors_eq (h : tree.WellFormed) (id : Nat) :
    tree.ancestors id = id :: ((tree.parent? id).map tree.ancestors).getD [] := by
  rw [ancestors, chain]
  cases hParent : tree.parent? id with
  | none => rfl
  | some p =>
      simp only [h.chain_eq_ancestors (h.parent_lt hParent), Option.map_some, Option.getD_some]

/-- Among a scope and those around it, `found` is the first one with a property. -/
inductive Nearest (parent? : Nat → Option Nat) (P : Nat → Prop) : Nat → Nat → Prop where
  | here {id : Nat} (holds : P id) : Nearest parent? P id id
  | outer {id parent found : Nat} (fails : ¬P id) (next : parent? id = some parent)
      (rest : Nearest parent? P parent found) : Nearest parent? P id found

/-- What is nearest depends only on which scopes have the property. -/
theorem nearest_congr {parent? : Nat → Option Nat} {P Q : Nat → Prop} (h : ∀ s, P s ↔ Q s)
    {id found : Nat} : Nearest parent? P id found ↔ Nearest parent? Q id found := by
  have hEq : P = Q := funext fun s => propext (h s)
  rw [hEq]

theorem Nearest.holds {parent? : Nat → Option Nat} {P : Nat → Prop} {id found : Nat}
    (h : Nearest parent? P id found) : P found := by
  induction h with
  | here holds => exact holds
  | outer _ _ _ ih => exact ih

/-- Searching the chain of scopes gives the answer of the nearest scope that has one. -/
theorem WellFormed.findSome?_ancestors_eq_some_iff (h : tree.WellFormed) {α : Type}
    {answer? : Nat → Option α} {id : Nat} {a : α} :
    (tree.ancestors id).findSome? answer? = some a ↔
      ∃ found, Nearest tree.parent? (fun s => (answer? s).isSome) id found ∧
        answer? found = some a := by
  induction id using Nat.strongRecOn with
  | _ id ih =>
      rw [h.ancestors_eq, List.findSome?_cons]
      cases hAnswer : answer? id with
      | some b =>
          have hSome : (answer? id).isSome = true := by simp [hAnswer]
          constructor
          · intro hEq
            exact ⟨id, .here hSome, hAnswer.trans hEq⟩
          · rintro ⟨found, nearest, hFound⟩
            cases nearest with
            | here holds => exact hAnswer.symm.trans hFound
            | outer fails next rest => exact absurd hSome fails
      | none =>
          have hNone : ¬(answer? id).isSome = true := by simp [hAnswer]
          cases hParent : tree.parent? id with
          | none =>
              constructor
              · intro hEq
                simp at hEq
              · rintro ⟨found, nearest, hFound⟩
                cases nearest with
                | here holds => exact absurd holds hNone
                | outer fails next rest => simp [hParent] at next
          | some p =>
              simp only [Option.map_some, Option.getD_some, ih p (h.parent_lt hParent)]
              constructor
              · rintro ⟨found, nearest, hFound⟩
                exact ⟨found, .outer hNone hParent nearest, hFound⟩
              · rintro ⟨found, nearest, hFound⟩
                cases nearest with
                | here holds => exact absurd holds hNone
                | outer fails next rest =>
                    obtain rfl : p = _ := Option.some.inj (hParent.symm.trans next)
                    exact ⟨found, rest, hFound⟩

/-- The first scope of the chain with a property is the nearest one that has it. -/
theorem WellFormed.find?_ancestors_eq_some_iff (h : tree.WellFormed) {p : Nat → Bool}
    {id found : Nat} :
    (tree.ancestors id).find? p = some found ↔
      Nearest tree.parent? (fun s => p s = true) id found := by
  have hGuard (s : Nat) : (Option.guard p s).isSome = true ↔ p s = true := by simp
  rw [List.find?_eq_findSome?_guard, h.findSome?_ancestors_eq_some_iff]
  simp only [nearest_congr hGuard, Option.guard_eq_some_iff]
  constructor
  · rintro ⟨s, nearest, rfl, -⟩
    exact nearest
  · intro nearest
    exact ⟨found, nearest, rfl, nearest.holds⟩

theorem descend?_cons (tree : ScopeTree) (start : Nat) (name : String) (path : List String) :
    tree.descend? start (name :: path) =
      (tree.findChild? start name).bind (tree.descend? · path) :=
  rfl

/-- The child that is found is the oldest one of that name. -/
theorem WellFormed.findChild?_eq_some_iff (h : tree.WellFormed) {id child : Nat} {name : String} :
    tree.findChild? id name = some child ↔
      (tree.parent? child = some id ∧ (tree.get? child).any (·.isContainer name) = true) ∧
      ∀ other, tree.parent? other = some id →
        (tree.get? other).any (·.isContainer name) = true → child ≤ other := by
  have hSize {other : Nat} (hParent : tree.parent? other = some id) : other < tree.size := by
    by_contra hOut
    rw [parent?, get?_eq_none_of_le (Nat.le_of_not_lt hOut)] at hParent
    cases hParent
  rw [findChild?, h.children_eq, List.find?_filter, List.find?_range_eq_some]
  simp only [Bool.not_eq_true', decide_eq_true_eq, decide_eq_false_iff_not, not_and, beq_iff_eq,
    List.mem_range]
  constructor
  · rintro ⟨hChild, -, hFirst⟩
    refine ⟨hChild, fun other hParent hNamed => ?_⟩
    by_contra hOlder
    exact hFirst other (Nat.lt_of_not_le hOlder) hParent hNamed
  · rintro ⟨hChild, hFirst⟩
    refine ⟨hChild, hSize hChild.1, fun other hOlder hParent hNamed => ?_⟩
    exact absurd (hFirst other hParent hNamed) (Nat.not_le_of_lt hOlder)

end TruthLint.ScopeTree
