import TruthLint.Expr.Lowering
import TruthLint.Scope.Symbols

/-! The outline of a source file: what it declares and evaluates, in the order in which it is
read, nested as its scopes are. Nothing is resolved in an outline. -/

namespace TruthLint

open Cst

/-- What the value of a whole expression is used for. -/
inductive RootContext where
  /-- It decides an `if`, a loop or a `switch`. -/
  | condition
  | statement
  | returned
  | initializer
deriving DecidableEq, Repr

/-- What a whole expression is read from. -/
inductive Seed where
  | expression (node : Node)
  /-- A declared name with the value that it starts with. -/
  | initialization (name : String) (pos operator : Position) (value : Node)

namespace Seed

def node : Seed → Node
  | expression node => node
  | initialization _ _ _ value => value

/-- An initialization is an assignment to the declared name. -/
def expr : Seed → Expr
  | expression node => .ofNode node
  | initialization name pos operator value =>
    .assign operator false (.var pos name) (.ofNode value)

end Seed

inductive Entry where
  | var (name : String) (type : VariableType) (line : Nat)
  | function (name : QualifiedName) (returns : ReturnKind) (line : Nat)
  | root (seed : Seed) (context : RootContext)
  | scope (kind : ScopeKind) (name : Option String) (line : Nat) (body : List Entry)
  /-- The namespaces of the path are opened if they exist and are created otherwise. -/
  | nameSpace (path : List String) (line : Nat) (body : List Entry)
  /-- A function with a body. It is declared if its name can be read, and the body belongs to
  the scope in which it is declared. -/
  | definition (declared : Option QualifiedName) (name : Option String) (returns : ReturnKind)
    (line : Nat) (body : List Entry)

end TruthLint
