import Mathlib.Data.List.Find
import TruthLint.Proofs.Model.WellFormed

/-! Namespaces and classes, and the paths that lead to them. The first container of a name is
found for good, so a path that was opened can be followed ever after. -/

namespace TruthLint.Model

variable {before after model : Model} {parent child current line : Nat} {name : String}

/-- The children that a scope has got since are searched after the earlier ones. -/
theorem Extends.findChild?_eq (h : before.Extends after) (hRooted : before.scopes.Rooted)
    (parent : Nat) (name : String) :
    ∃ more, after.scopes.children parent = before.scopes.children parent ++ more ∧
      after.scopes.findChild? parent name = (before.scopes.findChild? parent name).or
        (more.find? fun id => (after.scopes.get? id).any (·.isContainer name)) := by
  obtain ⟨more, hChildren⟩ : ∃ more,
      after.scopes.children parent = before.scopes.children parent ++ more := by
    cases hGet : before.scopes.get? parent with
    | none => exact ⟨after.scopes.children parent, by simp [ScopeTree.children, hGet]⟩
    | some scope =>
        obtain ⟨more, hAfter⟩ := h.scopes hGet
        exact ⟨more, by simp [ScopeTree.children, hGet, hAfter]⟩
  have hSame : ∀ id ∈ before.scopes.children parent,
      (after.scopes.get? id).any (·.isContainer name) =
        (before.scopes.get? id).any (·.isContainer name) := by
    intro id hId
    obtain ⟨old, hOld, -⟩ := hRooted.get?_of_mem_children hId
    obtain ⟨others, hNew⟩ := h.scopes hOld
    rw [hOld, hNew]
    rfl
  refine ⟨more, hChildren, ?_⟩
  rw [ScopeTree.findChild?, hChildren, List.find?_append, List.find?_congr hSame]
  rfl

/-- The first child of a name stays the first one when a model grows, since children are added after
those that are there. -/
theorem Extends.findChild? (h : before.Extends after) (hRooted : before.scopes.Rooted)
    (hFound : before.scopes.findChild? parent name = some child) :
    after.scopes.findChild? parent name = some child := by
  obtain ⟨more, -, hAfter⟩ := h.findChild?_eq hRooted parent name
  rw [hAfter, hFound, Option.some_or]

/-- So a path leads to the same scope ever after. -/
theorem Extends.descend? (h : before.Extends after) (hRooted : before.scopes.Rooted)
    {start : Nat} {path : List String} (hFound : before.scopes.descend? start path = some child) :
    after.scopes.descend? start path = some child := by
  induction path generalizing start with
  | nil => exact hFound
  | cons name path ih =>
      rw [ScopeTree.descend?_cons, Option.bind_eq_some_iff] at hFound ⊢
      obtain ⟨next, hNext, hRest⟩ := hFound
      exact ⟨next, h.findChild? hRooted hNext, ih hRest⟩

/-- A new container is found by its name, unless there was one of that name before. -/
theorem findChild?_createScope (h : model.scopes.Rooted) (hParent : parent < model.scopes.size)
    {kind : ScopeKind} (hKind : kind = .nameSpace ∨ kind = .classBody) (name : String)
    (line : Nat) :
    (model.createScope kind (some name) parent line).scopes.findChild? parent name =
      some ((model.scopes.findChild? parent name).getD model.scopes.size) := by
  obtain ⟨more, hMore, hFound⟩ :=
    (Extends.createScope model kind (some name) parent line).findChild?_eq h parent name
  have hChildren : (model.createScope kind (some name) parent line).scopes.children parent =
      model.scopes.children parent ++ [model.scopes.size] := by
    rw [createScope, ScopeTree.children_create_of_lt hParent, if_pos rfl]
  obtain rfl : more = [model.scopes.size] := List.append_cancel_left (hMore.symm.trans hChildren)
  have hNew : ((model.createScope kind (some name) parent line).scopes.get?
      model.scopes.size).any (·.isContainer name) = true := by
    rw [createScope, ScopeTree.get?_create_size]
    rcases hKind with rfl | rfl <;> simp [Scope.isContainer]
  simp only [hFound, List.find?_cons, hNew]
  cases model.scopes.findChild? parent name <;> rfl

/-- A child that was opened is found under its name, whether it was there before or not. -/
theorem openChild_findChild? (h : model.scopes.Rooted) (hParent : parent < model.scopes.size)
    (name : String) (line : Nat) :
    (model.openChild parent name line).1.scopes.findChild? parent name =
      some (model.openChild parent name line).2 := by
  unfold openChild
  split
  next child hFound => exact hFound
  next hFree =>
    rw [findChild?_createScope h hParent (.inl rfl), hFree]
    rfl

/-- Once a path is opened, following it leads to the scope that was returned. -/
theorem openPath_descend? (h : model.Consistent) {scope : Nat} (hScope : scope < model.scopes.size)
    (line : Nat) (path : List String) :
    (model.openPath scope line path).1.scopes.descend? scope path =
      some (model.openPath scope line path).2 := by
  induction path generalizing model scope with
  | nil => rfl
  | cons name path ih =>
      obtain ⟨hOpened, hChild⟩ := h.openChild hScope name line
      have hFirst := openChild_findChild? h.rooted hScope name line
      have hKept := Extends.openPath (model.openChild scope name line).1
        (model.openChild scope name line).2 line path
      rw [ScopeTree.descend?_cons, Option.bind_eq_some_iff]
      exact ⟨_, hKept.findChild? hOpened.rooted hFirst, ih hOpened hChild⟩

/-- Where the path of a name starts: at the global scope, or at the current one or one around. -/
def Start (model : Model) (current : Nat) (global : Bool) (start : Nat) : Prop :=
  if global then start = globalScope else start ∈ model.scopes.ancestors current

theorem start_self (model : Model) (current : Nat) (global : Bool) :
    model.Start current global (if global then globalScope else current) := by
  cases global with
  | true => rfl
  | false => exact List.mem_cons_self

/-- The owner of a function is found under the path of its name. -/
theorem openOwner_descend? (h : model.Consistent) (hCurrent : current < model.scopes.size)
    (line : Nat) (name : QualifiedName) :
    ∃ start, model.Start current name.global start ∧
      (model.openOwner current line name).1.scopes.descend? start name.path =
        some (model.openOwner current line name).2 := by
  have hSelf := start_self model current name.global
  have hLt : (if name.global then globalScope else current) < model.scopes.size := by
    split
    · exact h.rooted.size_pos
    · exact hCurrent
  simp only [openOwner]
  cases name.path with
  | nil => exact ⟨_, hSelf, rfl⟩
  | cons segment path =>
      dsimp only
      split
      next scope hFound =>
        obtain ⟨start, hStart, hFirst⟩ : ∃ start, model.Start current name.global start ∧
            model.scopes.findChild? start segment = some scope := by
          split at hFound
          next hGlobal => exact ⟨globalScope, by rw [Start, if_pos hGlobal], hFound⟩
          next hLocal =>
            obtain ⟨start, hMem, hFirst⟩ := List.exists_of_findSome?_eq_some hFound
            exact ⟨start, by rw [Start, if_neg hLocal]; exact hMem, hFirst⟩
        have hKept := Extends.openPath model scope line path
        refine ⟨start, hStart, ?_⟩
        rw [ScopeTree.descend?_cons, Option.bind_eq_some_iff]
        exact ⟨scope, hKept.findChild? h.rooted hFirst,
          openPath_descend? h (h.findChild?_lt_size hFirst) line path⟩
      next => exact ⟨_, hSelf, openPath_descend? h hLt line (segment :: path)⟩

end TruthLint.Model
