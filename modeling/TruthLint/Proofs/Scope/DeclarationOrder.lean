import TruthLint.Proofs.Scope.History

/-! Functions that are declared in another order. Whether a call means a function, and which kind of
value it returns, depends on what is declared in each scope and not on the order of declaration,
although the declaration that is returned is the first one of the table. -/

namespace TruthLint

/-- What a function is declared with. -/
structure Prototype where
  name : String
  returns : ReturnKind
  scope : Nat
  line : Nat
deriving DecidableEq, Repr

/-- The declarations are of the same name and scope and promise the same kind of value. Their
numbers and lines may differ. -/
structure Function.Interchangeable (f g : Function) : Prop where
  name : f.name = g.name
  scope : f.scope = g.scope
  returns : f.returns = g.returns

namespace SymbolTable

/-- Declares functions one after the other. -/
def declareFunctions (table : SymbolTable) (prototypes : List Prototype) : SymbolTable :=
  prototypes.foldl (fun table p => table.declareFunction p.name p.returns p.scope p.line) table

/-- Whether a function of the name is declared in the scope itself to return this kind of value. -/
def Declares (table : SymbolTable) (name : String) (scope : Nat) (returns : ReturnKind) : Prop :=
  ∃ f ∈ table.functions, f.scope = scope ∧ f.name = name ∧ f.returns = returns

/-- The tables declare the same functions, in any order and any number of times. -/
def DeclaresAlike (table table' : SymbolTable) : Prop :=
  ∀ name scope returns, table.Declares name scope returns ↔ table'.Declares name scope returns

variable {table table' : SymbolTable} {name : String} {scope : Nat} {returns : ReturnKind}

/-- A function is declared if it is among those that have its name and scope. -/
theorem declares_iff :
    table.Declares name scope returns ↔
      ∃ f ∈ table.functionsIn name scope, f.returns = returns := by
  simp only [Declares, mem_functionsIn, and_assoc]

/-- There are no such functions if none is declared, whatever it returns. -/
theorem isEmpty_functionsIn_iff :
    (table.functionsIn name scope).isEmpty = true ↔
      ∀ returns, ¬table.Declares name scope returns := by
  simp only [List.isEmpty_iff, List.eq_nil_iff_forall_not_mem, declares_iff]
  exact ⟨fun hNone _ ⟨f, hf, _⟩ => hNone f hf, fun hNone f hf => hNone f.returns ⟨f, hf, rfl⟩⟩

@[simp] theorem vars_declareFunctions (table : SymbolTable) (prototypes : List Prototype) :
    (table.declareFunctions prototypes).vars = table.vars := by
  induction prototypes generalizing table with
  | nil => rfl
  | cons p prototypes ih => exact ih (table.declareFunction p.name p.returns p.scope p.line)

/-- Functions say nothing of variables. -/
theorem variableType_declareFunctions (table : SymbolTable) (prototypes : List Prototype) :
    (table.declareFunctions prototypes).variableType = table.variableType := by
  have hVariables : (table.declareFunctions prototypes).variableIn? = table.variableIn? := by
    funext name scope
    rw [variableIn?, variableIn?, vars_declareFunctions]
  funext tree name scope
  rw [variableType, variableType, lookupVariable?, lookupVariable?, hVariables]

/-- One more prototype declares one more function. -/
theorem declares_declareFunction (p : Prototype) :
    (table.declareFunction p.name p.returns p.scope p.line).Declares name scope returns ↔
      table.Declares name scope returns ∨
        (p.scope = scope ∧ p.name = name ∧ p.returns = returns) := by
  simp only [Declares, declareFunction, List.mem_cons, exists_eq_or_imp]
  exact or_comm

/-- After some prototypes there are the old declarations and theirs. -/
theorem declares_declareFunctions (prototypes : List Prototype) :
    (table.declareFunctions prototypes).Declares name scope returns ↔
      table.Declares name scope returns ∨
        ∃ p ∈ prototypes, p.scope = scope ∧ p.name = name ∧ p.returns = returns := by
  induction prototypes generalizing table with
  | nil => simp [declareFunctions]
  | cons p prototypes ih =>
      rw [declareFunctions, List.foldl_cons, ← declareFunctions, ih, declares_declareFunction,
        or_assoc]
      simp only [List.mem_cons, exists_eq_or_imp]

/-- The order of prototypes makes no difference to what is declared. -/
theorem declaresAlike_of_perm {first second : List Prototype} (h : first.Perm second)
    (table : SymbolTable) :
    (table.declareFunctions first).DeclaresAlike (table.declareFunctions second) := by
  intro name scope returns
  simp only [declares_declareFunctions, h.mem_iff]

namespace DeclaresAlike

theorem symm (h : table.DeclaresAlike table') : table'.DeclaresAlike table :=
  fun name scope returns => (h name scope returns).symm

theorem isEmpty_functionsIn (h : table.DeclaresAlike table') (name : String) (scope : Nat) :
    (table.functionsIn name scope).isEmpty = (table'.functionsIn name scope).isEmpty := by
  rw [Bool.eq_iff_iff, isEmpty_functionsIn_iff, isEmpty_functionsIn_iff]
  exact forall_congr' fun returns => not_congr (h name scope returns)

/-- Where the declarations of one table agree those of the other do, though another one may be the
first. -/
theorem exists_agreed? (h : table.DeclaresAlike table') {f : Function}
    (hf : agreed? (table.functionsIn name scope) = some f) :
    ∃ g, agreed? (table'.functionsIn name scope) = some g ∧ f.Interchangeable g := by
  obtain ⟨hFirst, hAll⟩ := History.agreed?_eq_some_iff.mp hf
  have hMem := List.mem_of_head? hFirst
  have hAll' : ∀ g ∈ table'.functionsIn name scope, g.returns = f.returns := by
    intro g hg
    obtain ⟨e, he, hReturns⟩ :=
      declares_iff.mp ((h name scope g.returns).mpr (declares_iff.mpr ⟨g, hg, rfl⟩))
    rw [← hReturns, hAll e he]
  obtain ⟨e, he, -⟩ := declares_iff.mp ((h name scope _).mp (declares_iff.mpr ⟨f, hMem, rfl⟩))
  obtain ⟨g, rest, hFunctions⟩ := List.exists_cons_of_ne_nil (List.ne_nil_of_mem he)
  have hg : g ∈ table'.functionsIn name scope := hFunctions ▸ List.mem_cons_self
  refine ⟨g, History.agreed?_eq_some_iff.mpr ⟨by rw [hFunctions]; rfl, fun e he => ?_⟩, ?_⟩
  · rw [hAll' e he, hAll' g hg]
  · obtain ⟨-, hScope, hName⟩ := mem_functionsIn.mp hMem
    obtain ⟨-, hScope', hName'⟩ := mem_functionsIn.mp hg
    exact ⟨hName.trans hName'.symm, hScope.trans hScope'.symm, (hAll' g hg).symm⟩

/-- What the declarations agree on is the same but for the declaration that it is taken from. -/
theorem agreed? (h : table.DeclaresAlike table') (name : String) (scope : Nat) :
    Option.Rel Function.Interchangeable (agreed? (table.functionsIn name scope))
      (SymbolTable.agreed? (table'.functionsIn name scope)) := by
  cases hf : SymbolTable.agreed? (table.functionsIn name scope) with
  | some f =>
      obtain ⟨g, hg, hSame⟩ := h.exists_agreed? hf
      rw [hg]
      exact .some hSame
  | none =>
      cases hg : SymbolTable.agreed? (table'.functionsIn name scope) with
      | none => exact .none
      | some g =>
          obtain ⟨f, hSome, -⟩ := h.symm.exists_agreed? hg
          rw [hf] at hSome
          cases hSome

/-- A call means a function by one table just in case it does by the other, of the same name and
scope and with the same kind of value. -/
theorem resolve? (h : table.DeclaresAlike table') (tree : ScopeTree) (callee : Callee)
    (scope : Nat) :
    Option.Rel Function.Interchangeable (table.resolve? tree callee scope)
      (table'.resolve? tree callee scope) := by
  cases callee with
  | unqualified name =>
      simp only [SymbolTable.resolve?, h.isEmpty_functionsIn name]
      split
      · exact h.agreed? name _
      · exact .none
  | qualified name =>
      simp only [SymbolTable.resolve?]
      generalize (if name.global then tree.root?.bind fun root => tree.descend? root name.path
        else (tree.ancestors scope).findSome? fun s => tree.descend? s name.path) = target
      cases target with
      | none => exact .none
      | some owner => exact h.agreed? name.name owner
  | member name => exact .none
  | other => exact .none

end DeclaresAlike

end SymbolTable

end TruthLint
