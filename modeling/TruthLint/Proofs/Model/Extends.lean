import TruthLint.Model
import TruthLint.Proofs.Scope.Tree

/-! Recording only adds to a model. Scopes, declarations and expressions keep their numbers and
what they say; a scope may only get more children, after those that it has. -/

namespace TruthLint.Model

variable {before between after model : Model}

/-- The owner of a function is looked for along a path. The path starts at the global scope, at
the current one or at one that was found by its name. -/
theorem openOwner_eq_openPath (model : Model) (current line : Nat) (name : QualifiedName) :
    ∃ scope path, model.openOwner current line name = model.openPath scope line path ∧
      (scope = globalScope ∨ scope = current ∨
        ∃ outer segment, model.scopes.findChild? outer segment = some scope) := by
  obtain ⟨start, hStart, hGlobalOrCurrent⟩ : ∃ start,
      (if name.global then globalScope else current) = start ∧
        (start = globalScope ∨ start = current) := by
    refine ⟨_, rfl, ?_⟩
    split
    · exact .inl rfl
    · exact .inr rfl
  have hFromStart : start = globalScope ∨ start = current ∨
      ∃ outer segment, model.scopes.findChild? outer segment = some start :=
    hGlobalOrCurrent.imp_right .inl
  simp only [openOwner, hStart]
  cases name.path with
  | nil => exact ⟨start, [], rfl, hFromStart⟩
  | cons segment path =>
      dsimp only
      split
      next found hFound =>
        refine ⟨found, path, rfl, .inr (.inr ?_)⟩
        split at hFound
        · exact ⟨start, segment, hFound⟩
        · obtain ⟨outer, -, hOuter⟩ := List.exists_of_findSome?_eq_some hFound
          exact ⟨outer, segment, hOuter⟩
      next => exact ⟨start, segment :: path, rfl, hFromStart⟩

/-- Opening scopes changes nothing else in a model. -/
theorem openPath_eq_with (model : Model) (scope line : Nat) (path : List String) :
    ∃ scopes, (model.openPath scope line path).1 = { model with scopes := scopes } := by
  induction path generalizing model scope with
  | nil => exact ⟨model.scopes, rfl⟩
  | cons name path ih =>
      obtain ⟨opened, hChild⟩ : ∃ scopes,
          (model.openChild scope name line).1 = { model with scopes := scopes } := by
        unfold openChild
        split
        · exact ⟨model.scopes, rfl⟩
        · exact ⟨_, rfl⟩
      obtain ⟨scopes, hPath⟩ :=
        ih (model.openChild scope name line).1 (model.openChild scope name line).2
      exact ⟨scopes, hPath.trans (by rw [hChild])⟩

/-- To open the owner of a function changes the scopes and nothing else. -/
theorem openOwner_eq_with (model : Model) (current line : Nat) (name : QualifiedName) :
    ∃ scopes, (model.openOwner current line name).1 = { model with scopes := scopes } := by
  obtain ⟨scope, path, hPath, -⟩ := openOwner_eq_openPath model current line name
  rw [hPath]
  exact openPath_eq_with model scope line path

/-- No root is recorded by opening a path. -/
theorem roots_openPath (model : Model) (scope line : Nat) (path : List String) :
    (model.openPath scope line path).1.roots = model.roots := by
  obtain ⟨scopes, hOpened⟩ := openPath_eq_with model scope line path
  rw [hOpened]

theorem roots_declareNamed (model : Model) (current : Nat) (name : QualifiedName)
    (returns : ReturnKind) (line : Nat) :
    (model.declareNamed current name returns line).1.roots = model.roots := by
  obtain ⟨scopes, hOpened⟩ := openOwner_eq_with model current line name
  have hRoots : (model.openOwner current line name).1.roots = model.roots := by rw [hOpened]
  exact hRoots

/-- What was recorded before is still there. Declarations are listed with the latest first, so the
older ones are the end of the list. -/
structure Extends (before after : Model) : Prop where
  scopes : ∀ {id : Nat} {scope : Scope}, before.scopes.get? id = some scope →
    ∃ more, after.scopes.get? id = some { scope with children := scope.children ++ more }
  vars : before.symbols.vars <:+ after.symbols.vars
  functions : before.symbols.functions <:+ after.symbols.functions
  roots : before.roots.toList <+: after.roots.toList

namespace Extends

theorem refl (model : Model) : model.Extends model where
  scopes {_ scope} hGet := ⟨[], by rw [List.append_nil]; exact hGet⟩
  vars := List.suffix_rfl
  functions := List.suffix_rfl
  roots := List.prefix_rfl

/-- What is added in two steps is added. A scope that gets children twice has those of the second
step last. -/
theorem trans (first : before.Extends between) (second : between.Extends after) :
    before.Extends after where
  scopes {id scope} hGet := by
    obtain ⟨more, hBetween⟩ := first.scopes hGet
    obtain ⟨others, hAfter⟩ := second.scopes hBetween
    exact ⟨more ++ others, by rw [← List.append_assoc]; exact hAfter⟩
  vars := first.vars.trans second.vars
  functions := first.functions.trans second.functions
  roots := first.roots.trans second.roots

theorem lt_size (h : before.Extends after) {id : Nat} (hId : id < before.scopes.size) :
    id < after.scopes.size := by
  have hBefore : before.scopes.get? id = some _ := Array.getElem?_eq_getElem hId
  obtain ⟨more, hAfter⟩ := h.scopes hBefore
  exact (Array.getElem?_eq_some_iff.mp hAfter).1

/-- The number of scopes never goes down. -/
theorem size_le (h : before.Extends after) : before.scopes.size ≤ after.scopes.size :=
  Nat.le_of_not_lt fun hLt => Nat.lt_irrefl _ (h.lt_size hLt)

/-- A scope that is created comes after all others, and becomes the last child of its parent. -/
theorem createScope (model : Model) (kind : ScopeKind) (name : Option String) (parent line : Nat) :
    model.Extends (model.createScope kind name parent line) where
  scopes {id scope} hGet := by
    have hId : id < model.scopes.size := (Array.getElem?_eq_some_iff.mp hGet).1
    rw [Model.createScope, ScopeTree.get?_create_of_lt hId, hGet, Option.map_some]
    split
    · exact ⟨[model.scopes.size], rfl⟩
    · exact ⟨[], by rw [List.append_nil]⟩
  vars := List.suffix_rfl
  functions := List.suffix_rfl
  roots := List.prefix_rfl

/-- A variable is declared in front of the older ones. -/
theorem declareVariable (model : Model) (name : String) (type : VariableType) (scope line : Nat) :
    model.Extends (model.declareVariable name type scope line) :=
  { refl model with vars := List.suffix_cons _ _ }

theorem declareFunction (model : Model) (name : String) (returns : ReturnKind) (scope line : Nat) :
    model.Extends (model.declareFunction name returns scope line) :=
  { refl model with functions := List.suffix_cons _ _ }

theorem addRoot (model : Model) (root : Root) : model.Extends (model.addRoot root) :=
  { refl model with roots := ⟨[root], by rw [Model.addRoot, Array.toList_push]⟩ }

theorem openChild (model : Model) (parent : Nat) (name : String) (line : Nat) :
    model.Extends (model.openChild parent name line).1 := by
  unfold Model.openChild
  split
  · exact refl model
  · exact createScope model _ _ _ _

/-- A path is opened scope by scope, each of which is found or created. -/
theorem openPath (model : Model) (scope line : Nat) (path : List String) :
    model.Extends (model.openPath scope line path).1 := by
  induction path generalizing model scope with
  | nil => exact refl model
  | cons name path ih => exact (openChild model scope name line).trans (ih _ _)

theorem openOwner (model : Model) (current line : Nat) (name : QualifiedName) :
    model.Extends (model.openOwner current line name).1 := by
  obtain ⟨scope, path, hPath, -⟩ := openOwner_eq_openPath model current line name
  rw [hPath]
  exact openPath model scope line path

theorem declareNamed (model : Model) (current : Nat) (name : QualifiedName) (returns : ReturnKind)
    (line : Nat) : model.Extends (model.declareNamed current name returns line).1 :=
  (openOwner model current line name).trans (declareFunction _ _ _ _ _)

end Extends

mutual

/-- Recording an entry only adds to the model, in whatever scope it is met. -/
theorem extends_record (current : Nat) (model : Model) :
    ∀ entry : Entry, model.Extends (record current model entry)
  | .var name type line => .declareVariable model name type current line
  | .function name returns line => .declareNamed model current name returns line
  | .root _ _ => .addRoot model _
  | .scope kind name line body =>
      (Extends.createScope model kind name current line).trans (extends_recordAll _ _ body)
  | .nameSpace path line body =>
      (Extends.openPath model current line path).trans (extends_recordAll _ _ body)
  | .definition none name _ line body =>
      (Extends.createScope model .function name current line).trans (extends_recordAll _ _ body)
  | .definition (some declared) name returns line body =>
      ((Extends.declareNamed model current declared returns line).trans
        (Extends.createScope _ .function name _ line)).trans (extends_recordAll _ _ body)

/-- The same of entries one after the other. -/
theorem extends_recordAll (current : Nat) (model : Model) :
    ∀ entries : List Entry, model.Extends (recordAll current model entries)
  | [] => .refl model
  | entry :: entries =>
      (extends_record current model entry).trans (extends_recordAll current _ entries)

end

/-- What follows some entries is recorded in the scope in which they were met. -/
theorem recordAll_append (current : Nat) (model : Model) (entries later : List Entry) :
    recordAll current model (entries ++ later) =
      recordAll current (recordAll current model entries) later := by
  simp only [recordAll_eq_foldl, List.foldl_append]

end TruthLint.Model
