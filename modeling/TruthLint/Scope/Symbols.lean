import TruthLint.Scope.Tree
import TruthLint.Expr.Basic

/-! Declared variables and functions. A variable is looked up through the enclosing scopes, and
so is a function unless its name is qualified. Members never resolve, since the class of their
object is unknown. -/

namespace TruthLint

inductive VariableType where
  | boolean
  | pointer
  /-- A standard arithmetic type other than the boolean one. -/
  | integer
  | other
deriving DecidableEq, Repr

inductive ReturnKind where
  | boolean
  | other
deriving DecidableEq, Repr

structure Variable where
  id : Nat
  name : String
  scope : Nat
  line : Nat
  type : VariableType
deriving DecidableEq, Repr

structure Function where
  id : Nat
  name : String
  scope : Nat
  line : Nat
  returns : ReturnKind
deriving DecidableEq, Repr

/-- The declarations met so far, the latest first; each is numbered by its place in the order of
declaration. -/
structure SymbolTable where
  vars : List Variable
  functions : List Function
deriving DecidableEq, Repr

namespace SymbolTable

def empty : SymbolTable := ⟨[], []⟩

def declareVariable (table : SymbolTable) (name : String) (type : VariableType)
    (scope line : Nat) : SymbolTable :=
  { table with vars := ⟨table.vars.length, name, scope, line, type⟩ :: table.vars }

def declareFunction (table : SymbolTable) (name : String) (returns : ReturnKind)
    (scope line : Nat) : SymbolTable :=
  { table with
    functions := ⟨table.functions.length, name, scope, line, returns⟩ :: table.functions }

/-- The last variable of this name that is declared in the scope itself. -/
def variableIn? (table : SymbolTable) (name : String) (scope : Nat) : Option Variable :=
  table.vars.find? fun v => v.scope == scope && v.name == name

/-- The functions of this name that are declared in the scope itself, in order. -/
def functionsIn (table : SymbolTable) (name : String) (scope : Nat) : List Function :=
  (table.functions.filter fun f => f.scope == scope && f.name == name).reverse

/-- The variable that a name means in a scope: the last one of the nearest scope with any. -/
def lookupVariable? (table : SymbolTable) (tree : ScopeTree) (name : String) (scope : Nat) :
    Option Variable :=
  (tree.ancestors scope).findSome? (table.variableIn? name)

def variableType (table : SymbolTable) (tree : ScopeTree) (name : String) (scope : Nat) :
    VariableType :=
  ((table.lookupVariable? tree name scope).map Variable.type).getD .other

/-- The first of some declarations, provided that all return the same kind of value. -/
def agreed? : List Function → Option Function
  | [] => none
  | f :: others => if others.all (·.returns == f.returns) then some f else none

/-- The function that a call in a scope refers to. Of an unqualified name only the nearest scope
with any declaration counts; a path is followed from the nearest scope from which it leads
anywhere. -/
def resolve? (table : SymbolTable) (tree : ScopeTree) (callee : Callee) (scope : Nat) :
    Option Function :=
  match callee with
  | .member _ | .other => none
  | .unqualified name =>
    match (tree.ancestors scope).find? fun s => !(table.functionsIn name s).isEmpty with
    | some nearest => agreed? (table.functionsIn name nearest)
    | none => none
  | .qualified name =>
    let target :=
      if name.global then tree.root?.bind fun root => tree.descend? root name.path
      else (tree.ancestors scope).findSome? fun s => tree.descend? s name.path
    target.bind fun owner => agreed? (table.functionsIn name.name owner)

end SymbolTable

end TruthLint
