/-! Nested scopes. Scopes are numbered in the order of their creation, and the first one is the
root. -/

namespace TruthLint

inductive ScopeKind where
  | global | nameSpace | classBody | function | block
deriving DecidableEq, Repr

structure Scope where
  kind : ScopeKind
  name : Option String
  parent : Option Nat
  /-- The scopes that name this one as their parent, in the order of their creation. -/
  children : List Nat
  line : Nat
deriving DecidableEq, Repr

namespace Scope

/-- Whether the scope is a namespace or class of this name. -/
def isContainer (scope : Scope) (name : String) : Bool :=
  (scope.kind == .nameSpace || scope.kind == .classBody) && scope.name == some name

end Scope

structure ScopeTree where
  scopes : Array Scope
deriving DecidableEq, Repr

namespace ScopeTree

def empty : ScopeTree := ⟨#[]⟩

def size (tree : ScopeTree) : Nat := tree.scopes.size

def get? (tree : ScopeTree) (id : Nat) : Option Scope := tree.scopes[id]?

def root? (tree : ScopeTree) : Option Nat := if tree.size = 0 then none else some 0

/-- Adds a scope, whose number is the size of the tree before. A parent that does not exist is
left out. -/
def create (tree : ScopeTree) (kind : ScopeKind) (name : Option String) (parent : Option Nat)
    (line : Nat) : ScopeTree :=
  let id := tree.size
  let parent := parent.filter (· < id)
  let scopes := match parent with
    | some p => tree.scopes.modify p fun scope => { scope with children := scope.children ++ [id] }
    | none => tree.scopes
  ⟨scopes.push ⟨kind, name, parent, [], line⟩⟩

def parent? (tree : ScopeTree) (id : Nat) : Option Nat := (tree.get? id).bind Scope.parent

def children (tree : ScopeTree) (id : Nat) : List Nat :=
  ((tree.get? id).map Scope.children).getD []

/-- The scope and those around it, at most `bound` of them. -/
def chain (tree : ScopeTree) : (bound id : Nat) → List Nat
  | 0, _ => []
  | bound + 1, id =>
    id :: match tree.parent? id with
      | some parent => tree.chain bound parent
      | none => []

/-- The scope and those around it, the nearest first. A parent is older than its children, so
there are at most as many as scopes up to this one. -/
def ancestors (tree : ScopeTree) (id : Nat) : List Nat := tree.chain (id + 1) id

/-- The first namespace or class of this name directly inside a scope. -/
def findChild? (tree : ScopeTree) (id : Nat) (name : String) : Option Nat :=
  (tree.children id).find? fun child => (tree.get? child).any (·.isContainer name)

/-- Follows a path downwards, one named child per segment. -/
def descend? (tree : ScopeTree) (start : Nat) (path : List String) : Option Nat :=
  path.foldlM tree.findChild? start

end ScopeTree

end TruthLint
