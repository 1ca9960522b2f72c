import TruthLint.Model

/-! What kind of value an expression has, as far as its operators and declarations tell. -/

namespace TruthLint

inductive ValueClass where
  | boolLiteral (value : Bool)
  | boolVariable
  /-- A variable of a standard arithmetic type. -/
  | intVariable
  | numberLiteral (value : Option Nat)
  /-- Boolean by its operator or by the function that it calls. -/
  | boolExpr
  /-- An explicit conversion to the boolean type. -/
  | boolCast
  | other
deriving DecidableEq, Repr

namespace ValueClass

def isBoolean : ValueClass → Bool
  | boolLiteral _ | boolVariable | boolExpr | boolCast => true
  | _ => false

def ofVariable : VariableType → ValueClass
  | .boolean => boolVariable
  | .integer => intVariable
  | .pointer | .other => other

end ValueClass

namespace Model

/-- Whether a call in a scope refers to a function that returns a boolean. -/
def returnsBool (model : Model) (callee : Callee) (scope : Nat) : Bool :=
  (model.resolve? callee scope).any (·.returns == .boolean)

def classify (model : Model) (scope : Nat) : Expr → ValueClass
  | .literal _ (.bool value) => .boolLiteral value
  | .literal _ (.number value) => .numberLiteral value
  | .var _ name => .ofVariable (model.variableType name scope)
  | .unary _ .not _ => .boolExpr
  | .binary _ op _ _ => if op.isLogical || op.isComparison then .boolExpr else .other
  | .call _ callee _ => if model.returnsBool callee scope then .boolExpr else .other
  | .cast _ true _ => .boolCast
  | _ => .other

/-- The call, possibly under one `!`, if it is one to a function that returns a boolean. -/
def boolCall? (model : Model) (scope : Nat) (e : Expr) : Option Expr :=
  match e.stripNot with
  | .call pos callee operands =>
    if model.returnsBool callee scope then some (.call pos callee operands) else none
  | _ => none

/-- The name, if the expression is a boolean variable, possibly under one `!`. -/
def boolVariable? (model : Model) (scope : Nat) (e : Expr) : Option String :=
  e.stripNot.variableName?.filter fun name => model.variableType name scope == .boolean

end Model

end TruthLint
