import Mathlib.Data.List.Induction
import Mathlib.Logic.Relation
import TruthLint.Proofs.Scope.Tree
import TruthLint.Scope.Symbols

/-! Scopes and symbols as a history. A history says which scopes were created and what was declared
in them, in order, and nothing about how that is stored. What a name means is read off it: the
last variable, and the first of the functions if they agree, in the nearest scope that counts. -/

namespace TruthLint

/-- What happens to a scope tree and its symbol table. -/
inductive ScopeEvent where
  | scope (kind : ScopeKind) (name : Option String) (parent : Option Nat) (line : Nat)
  | var (name : String) (type : VariableType) (owner line : Nat)
  | function (name : String) (returns : ReturnKind) (owner line : Nat)

/-- A scope as it was asked for. -/
structure CreatedScope where
  kind : ScopeKind
  name : Option String
  parent : Option Nat
deriving DecidableEq, Repr

/-- What the scope was created with. -/
def Scope.created (scope : Scope) : CreatedScope := ⟨scope.kind, scope.name, scope.parent⟩

namespace ScopeEvent

def scopeOf? : ScopeEvent → Option CreatedScope
  | scope kind name parent _ => some ⟨kind, name, parent⟩
  | _ => none

/-- The variable that is declared, once its number is known. -/
def variableOf? : ScopeEvent → Option (Nat → Variable)
  | var name type owner line => some fun id => ⟨id, name, owner, line, type⟩
  | _ => none

/-- The function that is declared, once its number is known. -/
def functionOf? : ScopeEvent → Option (Nat → Function)
  | function name returns owner line => some fun id => ⟨id, name, owner, line, returns⟩
  | _ => none

/-- How an event changes the tree and the table. -/
def apply (tree : ScopeTree) (table : SymbolTable) : ScopeEvent → ScopeTree × SymbolTable
  | scope kind name parent line => (tree.create kind name parent line, table)
  | var name type owner line => (tree, table.declareVariable name type owner line)
  | function name returns owner line => (tree, table.declareFunction name returns owner line)

end ScopeEvent

/-- The functions of a name in a scope are those that were declared with both. -/
theorem SymbolTable.mem_functionsIn {table : SymbolTable} {name : String} {scope : Nat}
    {f : Function} :
    f ∈ table.functionsIn name scope ↔ f ∈ table.functions ∧ f.scope = scope ∧ f.name = name := by
  rw [functionsIn, List.mem_reverse, List.mem_filter, Bool.and_eq_true, beq_iff_eq, beq_iff_eq]

/-- Events, the first one first. -/
abbrev History := List ScopeEvent

namespace History

open ScopeTree (Nearest)

/-- The tree and the table that a history leads to. -/
def run (history : History) : ScopeTree × SymbolTable :=
  history.foldl (fun state event => event.apply state.1 state.2) (.empty, .empty)

def scopes (history : History) : List CreatedScope := history.filterMap ScopeEvent.scopeOf?

def vars (history : History) : List Variable :=
  (history.filterMap ScopeEvent.variableOf?).mapIdx fun id numbered => numbered id

def functions (history : History) : List Function :=
  (history.filterMap ScopeEvent.functionOf?).mapIdx fun id numbered => numbered id

def parent? (history : History) (id : Nat) : Option Nat :=
  history.scopes[id]?.bind CreatedScope.parent

/-- Every scope is created in one that exists already, or in none. -/
def WellFormed (history : History) : Prop :=
  ∀ (id : Nat) (created : CreatedScope) (parent : Nat),
    history.scopes[id]? = some created → created.parent = some parent → parent < id

/-- A scope and those around it. -/
def Encloses (history : History) : Nat → Nat → Prop :=
  Relation.ReflTransGen fun id parent => history.parent? id = some parent

def DeclaresVariable (history : History) (name : String) (scope : Nat) : Prop :=
  ∃ v ∈ history.vars, v.scope = scope ∧ v.name = name

/-- The last variable of a name that is declared in a scope itself. -/
def LastVariable (history : History) (name : String) (scope : Nat) (v : Variable) : Prop :=
  (v ∈ history.vars ∧ v.scope = scope ∧ v.name = name) ∧
    ∀ w ∈ history.vars, w.scope = scope → w.name = name → w.id ≤ v.id

def DeclaresFunction (history : History) (name : String) (scope : Nat) : Prop :=
  ∃ f ∈ history.functions, f.scope = scope ∧ f.name = name

/-- The first function of a name that is declared in a scope itself, where all return the same
kind of value. -/
def AgreedFunction (history : History) (name : String) (scope : Nat) (f : Function) : Prop :=
  (f ∈ history.functions ∧ f.scope = scope ∧ f.name = name) ∧
    ∀ g ∈ history.functions, g.scope = scope → g.name = name →
      f.id ≤ g.id ∧ g.returns = f.returns

/-- A namespace or class of a name directly inside a scope. -/
def NamedChild (history : History) (scope : Nat) (name : String) (child : Nat) : Prop :=
  ∃ created, history.scopes[child]? = some created ∧ created.parent = some scope ∧
    (created.kind = .nameSpace ∨ created.kind = .classBody) ∧ created.name = some name

/-- A path leads from a scope through the first child of each name. -/
inductive Leads (history : History) : Nat → List String → Nat → Prop where
  | nil (scope : Nat) : Leads history scope [] scope
  | cons {scope child target : Nat} {name : String} {path : List String}
      (named : history.NamedChild scope name child)
      (first : ∀ other, history.NamedChild scope name other → child ≤ other)
      (rest : Leads history child path target) : Leads history scope (name :: path) target

/-- The function that a call in a scope refers to. -/
def Resolves (history : History) (scope : Nat) (f : Function) : Callee → Prop
  | .unqualified name => ∃ owner,
      Nearest history.parent? (history.DeclaresFunction name) scope owner ∧
        history.AgreedFunction name owner f
  | .qualified ⟨true, path, name⟩ => ∃ owner,
      history.Leads 0 path owner ∧ history.AgreedFunction name owner f
  | .qualified ⟨false, path, name⟩ => ∃ start owner,
      Nearest history.parent? (fun s => ∃ target, history.Leads s path target) scope start ∧
        history.Leads start path owner ∧ history.AgreedFunction name owner f
  | .member _ | .other => False

section

variable (history : History) (event : ScopeEvent)

/-- The last event comes on top of what the others have left. -/
theorem run_concat : run (history ++ [event]) = event.apply history.run.1 history.run.2 := by
  simp [run]

/-- An event creates one scope at most, and it is the newest. -/
theorem scopes_concat : scopes (history ++ [event]) = history.scopes ++ event.scopeOf?.toList := by
  cases hEvent : event.scopeOf? <;> simp [scopes, hEvent]

/-- A variable is numbered by how many there are before it. -/
theorem vars_concat : vars (history ++ [event]) =
    history.vars ++ (event.variableOf?.map (· history.vars.length)).toList := by
  cases hEvent : event.variableOf? <;> simp [vars, hEvent]

theorem functions_concat : functions (history ++ [event]) =
    history.functions ++ (event.functionOf?.map (· history.functions.length)).toList := by
  cases hEvent : event.functionOf? <;> simp [functions, hEvent]

end

/-- The table is the declarations of the history, the latest first. -/
theorem run_table (history : History) :
    history.run.2 = ⟨history.vars.reverse, history.functions.reverse⟩ := by
  induction history using List.reverseRecOn with
  | nil => rfl
  | append_singleton history event ih =>
      rw [run_concat, vars_concat, functions_concat]
      cases event <;>
        simp [ScopeEvent.apply, ScopeEvent.variableOf?, ScopeEvent.functionOf?, ih,
          SymbolTable.declareVariable, SymbolTable.declareFunction]

/-- Numbers that are given in order grow along a list. -/
theorem pairwise_numbered {α : Type} {number : α → Nat} {makes : List (Nat → α)}
    (h : ∀ make ∈ makes, ∀ i, number (make i) = i) :
    (makes.mapIdx fun i make => make i).Pairwise fun a b => number a < number b := by
  rw [List.pairwise_iff_getElem]
  intro i j hi hj hLt
  simp only [List.getElem_mapIdx]
  rw [h _ (List.getElem_mem _), h _ (List.getElem_mem _)]
  exact hLt

theorem pairwise_vars (history : History) :
    history.vars.Pairwise fun v w => v.id < w.id := by
  refine pairwise_numbered fun make hMake i => ?_
  obtain ⟨event, -, hEvent⟩ := List.mem_filterMap.mp hMake
  cases event <;> cases hEvent
  rfl

theorem pairwise_functions (history : History) :
    history.functions.Pairwise fun f g => f.id < g.id := by
  refine pairwise_numbered fun make hMake i => ?_
  obtain ⟨event, -, hEvent⟩ := List.mem_filterMap.mp hMake
  cases event <;> cases hEvent
  rfl

/-- In an ordered list a search finds the element before which no other one would do. -/
theorem find?_eq_some_iff_of_pairwise {α : Type} {R : α → α → Prop} {p : α → Bool} {l : List α}
    {a : α} (hOrder : ∀ a b, R a b → ¬R b a) (h : l.Pairwise R) :
    l.find? p = some a ↔ (a ∈ l ∧ p a = true) ∧ ∀ b ∈ l, p b = true → ¬R b a := by
  induction l with
  | nil => simp
  | cons c l ih =>
      rw [List.pairwise_cons] at h
      cases hc : p c with
      | true =>
          rw [List.find?_cons_of_pos hc]
          constructor
          · rintro ⟨⟩
            refine ⟨⟨List.mem_cons_self, hc⟩, fun b hb hpb => ?_⟩
            rcases List.mem_cons.mp hb with rfl | hb
            · exact fun hSelf => hOrder _ _ hSelf hSelf
            · exact hOrder _ _ (h.1 b hb)
          · rintro ⟨⟨ha, hpa⟩, hFirst⟩
            rcases List.mem_cons.mp ha with rfl | ha
            · rfl
            · exact absurd (h.1 a ha) (hFirst c List.mem_cons_self hc)
      | false =>
          rw [List.find?_cons_of_neg (by simp [hc]), ih h.2]
          constructor
          · rintro ⟨⟨ha, hpa⟩, hFirst⟩
            refine ⟨⟨List.mem_cons_of_mem c ha, hpa⟩, fun b hb hpb => ?_⟩
            rcases List.mem_cons.mp hb with rfl | hb
            · simp [hc] at hpb
            · exact hFirst b hb hpb
          · rintro ⟨⟨ha, hpa⟩, hFirst⟩
            have hTail : a ∈ l := by
              rcases List.mem_cons.mp ha with rfl | ha
              · simp [hc] at hpa
              · exact ha
            exact ⟨⟨hTail, hpa⟩, fun b hb => hFirst b (List.mem_cons_of_mem c hb)⟩

/-- A scope gives the variable that was declared in it last under the name. -/
theorem variableIn?_eq_some_iff (history : History) {name : String} {scope : Nat} {v : Variable} :
    history.run.2.variableIn? name scope = some v ↔ history.LastVariable name scope v := by
  have hOrder : history.vars.reverse.Pairwise fun v w => w.id < v.id :=
    List.pairwise_reverse.mpr history.pairwise_vars
  rw [run_table, SymbolTable.variableIn?,
    find?_eq_some_iff_of_pairwise (fun _ _ => Nat.lt_asymm) hOrder]
  simp only [List.mem_reverse, Bool.and_eq_true, beq_iff_eq, and_imp, Nat.not_lt, LastVariable]

theorem isSome_variableIn? (history : History) (name : String) (scope : Nat) :
    (history.run.2.variableIn? name scope).isSome ↔ history.DeclaresVariable name scope := by
  rw [run_table, SymbolTable.variableIn?, List.find?_isSome]
  simp only [List.mem_reverse, Bool.and_eq_true, beq_iff_eq, DeclaresVariable]

/-- The functions of a scope are listed in the order of their declarations. -/
theorem functionsIn_run (history : History) (name : String) (scope : Nat) :
    history.run.2.functionsIn name scope =
      history.functions.filter fun f => f.scope == scope && f.name == name := by
  rw [run_table, SymbolTable.functionsIn, List.filter_reverse, List.reverse_reverse]

theorem functionsIn_isEmpty_eq_false_iff (history : History) (name : String) (scope : Nat) :
    (history.run.2.functionsIn name scope).isEmpty = false ↔
      history.DeclaresFunction name scope := by
  rw [functionsIn_run, List.isEmpty_eq_false_iff_exists_mem]
  simp only [List.mem_filter, Bool.and_eq_true, beq_iff_eq, DeclaresFunction]

/-- Functions agree if all of them return what the first one does, which is then the answer. -/
theorem agreed?_eq_some_iff {fs : List Function} {f : Function} :
    SymbolTable.agreed? fs = some f ↔ fs.head? = some f ∧ ∀ g ∈ fs, g.returns = f.returns := by
  cases fs with
  | nil => simp [SymbolTable.agreed?]
  | cons first others =>
      simp only [SymbolTable.agreed?, List.head?_cons, Option.some.injEq]
      constructor
      · intro h
        split_ifs at h with hAll
        cases h
        simpa using hAll
      · rintro ⟨rfl, hAll⟩
        rw [if_pos (by simpa using hAll)]

/-- A scope answers with its first function of the name, as long as all of that name return the
same. -/
theorem agreed?_functionsIn_eq_some_iff (history : History) {name : String} {scope : Nat}
    {f : Function} :
    SymbolTable.agreed? (history.run.2.functionsIn name scope) = some f ↔
      history.AgreedFunction name scope f := by
  rw [functionsIn_run, agreed?_eq_some_iff, List.head?_filter,
    find?_eq_some_iff_of_pairwise (fun _ _ => Nat.lt_asymm) history.pairwise_functions]
  simp only [Bool.and_eq_true, beq_iff_eq, and_imp, Nat.not_lt, List.mem_filter, AgreedFunction]
  grind

end History

end TruthLint
