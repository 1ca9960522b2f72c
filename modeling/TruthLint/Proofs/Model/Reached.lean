import TruthLint.Proofs.Model.WellFormed

/-! The states that recording goes through. The recording of a tree comes to each part of its
outline in some scope, when some of the model is there already, and what is recorded then is part
of the model of the tree. -/

namespace TruthLint

open Cst

/-- The entries inside an entry. -/
def Entry.body : Entry → List Entry
  | .scope _ _ _ body | .nameSpace _ _ body | .definition _ _ _ _ body => body
  | .var _ _ _ | .function _ _ _ | .root _ _ => []

theorem Entry.Regular.body {entry : Entry} (h : entry.Regular) : Outline.Regular entry.body := by
  cases h with
  | var | function | root => exact List.forall_mem_nil _
  | scope _ _ entries => exact entries
  | nameSpace entries => exact entries
  | definition entries => exact entries

namespace Model

/-- The model and the scope in which the entries inside an entry are recorded. -/
def entered (current : Nat) (model : Model) : Entry → Model × Nat
  | .scope kind name line _ => (model.createScope kind name current line, model.scopes.size)
  | .nameSpace path line _ => model.openPath current line path
  | .definition declared name returns line _ =>
    let (model, owner) := match declared with
      | some declared => model.declareNamed current declared returns line
      | none => (model, current)
    (model.createScope .function name owner line, model.scopes.size)
  | .var _ _ _ | .function _ _ _ | .root _ _ => (model, current)

/-- Nothing is recorded for an entry after the entries inside it. -/
theorem extends_entered (current : Nat) (model : Model) (entry : Entry) :
    (recordAll (entered current model entry).2 (entered current model entry).1 entry.body).Extends
      (record current model entry) := by
  cases entry with
  | var | function | root => exact extends_record current model _
  | scope | nameSpace => exact .refl _
  | definition declared =>
      cases declared with
      | none => exact .refl _
      | some declared => exact .refl _

/-- To enter an entry keeps a model consistent, and leads to a scope that exists. -/
theorem consistent_entered {model : Model} {current : Nat} (h : model.Consistent)
    (hCurrent : current < model.scopes.size) {entry : Entry} (hEntry : entry.Regular) :
    (entered current model entry).1.Consistent ∧
      (entered current model entry).2 < (entered current model entry).1.scopes.size := by
  cases hEntry with
  | var | function | root => exact ⟨h, hCurrent⟩
  | scope notGlobal notNameSpace _ =>
      exact h.createScope _ _ _ hCurrent notGlobal fun hKind => absurd hKind notNameSpace
  | nameSpace => exact h.openPath hCurrent _ _
  | @definition declared =>
      cases declared with
      | none => exact h.createScope .function _ _ hCurrent (by decide) (by simp)
      | some declared =>
          obtain ⟨hOwner, hOwnerLt⟩ := h.declareNamed hCurrent declared _ _
          exact hOwner.createScope .function _ _ hOwnerLt (by decide) (by simp)

/-- Recording some entries comes to a part of them in a scope, when the model is `before`. The last
three arguments are where the entries themselves are recorded, the model then, and the entries. -/
inductive Reaches (part : List Entry) (scope : Nat) (before : Model) :
    Nat → Model → List Entry → Prop where
  | here (later : List Entry) : Reaches part scope before scope before (part ++ later)
  | next {current : Nat} {model : Model} {entry : Entry} {entries : List Entry}
      (rest : Reaches part scope before current (record current model entry) entries) :
      Reaches part scope before current model (entry :: entries)
  | inside {current : Nat} {model : Model} {entry : Entry} {entries : List Entry}
      (within : Reaches part scope before (entered current model entry).2
        (entered current model entry).1 entry.body) :
      Reaches part scope before current model (entry :: entries)

namespace Reaches

variable {part entries : List Entry} {scope current : Nat} {before model : Model}

theorem refl (entries : List Entry) (current : Nat) (model : Model) :
    Reaches entries current model current model entries := by
  have hHere : Reaches entries current model current model (entries ++ []) := .here []
  rwa [List.append_nil] at hHere

/-- Entries that follow do not matter to what was reached before them. -/
theorem append (h : Reaches part scope before current model entries) (later : List Entry) :
    Reaches part scope before current model (entries ++ later) := by
  induction h with
  | here others =>
      rw [List.append_assoc]
      exact .here _
  | next _ ih => exact .next ih
  | inside within _ => exact .inside within

/-- What is reached after some entries is reached. -/
theorem after (earlier : List Entry)
    (h : Reaches part scope before current (recordAll current model earlier) entries) :
    Reaches part scope before current model (earlier ++ entries) := by
  induction earlier generalizing model with
  | nil => exact h
  | cons entry earlier ih => exact .next (ih h)

/-- What is reached in a part that is reached is reached. -/
theorem trans {inner : List Entry} {innermost : Nat} {between : Model}
    (second : Reaches inner innermost between scope before part)
    (first : Reaches part scope before current model entries) :
    Reaches inner innermost between current model entries := by
  induction first with
  | here later => exact second.append later
  | next _ ih => exact .next ih
  | inside _ ih => exact .inside ih

/-- The entries of a child are reached among those of the children before and after it. -/
theorem flatMap {α : Type} {a : α} {as : List α} (h : a ∈ as) (f : α → List Entry) (current : Nat)
    (model : Model) : ∃ before : Model, model.Extends before ∧
      Reaches (f a) current before current model (as.flatMap f) := by
  obtain ⟨earlier, later, rfl⟩ := List.append_of_mem h
  refine ⟨_, extends_recordAll current model (earlier.flatMap f), ?_⟩
  rw [List.flatMap_append, List.flatMap_cons]
  exact after _ (.here _)

/-- What is recorded when a part is reached is kept. -/
theorem kept (h : Reaches part scope before current model entries) :
    (recordAll scope before part).Extends (recordAll current model entries) := by
  induction h with
  | here later =>
      rw [recordAll_append]
      exact extends_recordAll _ _ _
  | next _ ih => exact ih
  | inside _ ih => exact (ih.trans (extends_entered _ _ _)).trans (extends_recordAll _ _ _)

/-- What is there when a part is reached is kept. -/
theorem kept_before (h : Reaches part scope before current model entries) :
    before.Extends (recordAll current model entries) :=
  (extends_recordAll scope before part).trans h.kept

theorem left {first second : List Entry}
    (h : Reaches (first ++ second) scope before current model entries) :
    Reaches first scope before current model entries :=
  (Reaches.here second).trans h

/-- The second of two parts is reached when the first is recorded. -/
theorem right {first second : List Entry}
    (h : Reaches (first ++ second) scope before current model entries) :
    Reaches second scope (recordAll scope before first) current model entries :=
  (after first (.refl second scope _)).trans h

/-- Behind the first entry the others are reached, when it has been recorded. -/
theorem tail {entry : Entry} {later : List Entry}
    (h : Reaches (entry :: later) scope before current model entries) :
    Reaches later scope (record scope before entry) current model entries :=
  (Reaches.next (.refl later scope _)).trans h

/-- The entries inside an entry are reached when it is entered. -/
theorem body {entry : Entry} {later : List Entry}
    (h : Reaches (entry :: later) scope before current model entries) :
    Reaches entry.body (entered scope before entry).2 (entered scope before entry).1 current model
      entries :=
  (Reaches.inside (.refl entry.body _ _)).trans h

/-- An expression that is reached is evaluated in the scope in which it is reached. -/
theorem root_mem {seed : Seed} {context : RootContext} {later : List Entry}
    (h : Reaches (.root seed context :: later) scope before current model entries) :
    ⟨seed.expr, scope, context⟩ ∈ (recordAll current model entries).roots := by
  refine Array.mem_toList_iff.mp (h.tail.kept_before.roots.mem ?_)
  exact Array.mem_toList_iff.mpr (Array.mem_push_self)

/-- A variable that is reached is declared in the scope in which it is reached. -/
theorem var_mem {name : String} {type : VariableType} {line : Nat} {later : List Entry}
    (h : Reaches (.var name type line :: later) scope before current model entries) :
    ⟨before.symbols.vars.length, name, scope, line, type⟩ ∈
      (recordAll current model entries).symbols.vars :=
  h.tail.kept_before.vars.mem List.mem_cons_self

/-- Only consistent models and scopes that exist are ever reached from such ones. -/
theorem consistent (h : Reaches part scope before current model entries)
    (hModel : model.Consistent) (hCurrent : current < model.scopes.size)
    (hEntries : Outline.Regular entries) :
    before.Consistent ∧ scope < before.scopes.size := by
  induction h with
  | here => exact ⟨hModel, hCurrent⟩
  | next _ ih =>
      obtain ⟨hEntry, hOthers⟩ := List.forall_mem_cons.mp hEntries
      exact ih (consistent_record hModel hCurrent hEntry)
        ((extends_record _ _ _).lt_size hCurrent) hOthers
  | inside _ ih =>
      have hEntry := (List.forall_mem_cons.mp hEntries).1
      obtain ⟨hEntered, hLt⟩ := consistent_entered hModel hCurrent hEntry
      exact ih hEntered hLt hEntry.body

end Reaches

/-- Reading a tree comes to a node in a role: what the node contributes is recorded in a scope,
when the model is `before`. -/
def Visits (root node : Node) (role : Role) (scope : Nat) (before : Model) : Prop :=
  Reaches (Outline.ofNode node role) scope before globalScope initial (Outline.ofTree root)

namespace Visits

variable {root node : Node} {role : Role} {scope : Nat} {before : Model}

/-- What a visited node contributes is still there in the model of the whole tree. -/
theorem kept (h : Visits root node role scope before) :
    (recordAll scope before (Outline.ofNode node role)).Extends (ofTree root) :=
  Reaches.kept h

/-- A node is visited in a consistent model, in a scope that exists. -/
theorem consistent (h : Visits root node role scope before) :
    before.Consistent ∧ scope < before.scopes.size :=
  Reaches.consistent h .initial (by decide) (Outline.regular_ofNode root .members)

end Visits

end Model

end TruthLint
