import TruthLint.Position
import TruthLint.Expr.Operator
import TruthLint.Expr.Name

/-! Expressions as the rules see them. Parentheses are gone, explicit conversions are kept, and
what no rule looks into is `other` with its parts. -/

namespace TruthLint

inductive Literal where
  | bool (value : Bool)
  /-- No value is known of fractions and of numbers past 64 bits. -/
  | number (value : Option Nat)
  | other
deriving DecidableEq, Repr

/-- What a call names. -/
inductive Callee where
  | unqualified (name : String)
  | qualified (name : QualifiedName)
  /-- A member of the object that is the first operand of the call. -/
  | member (name : String)
  /-- An instance of a template, a function pointer or a lambda. -/
  | other
deriving DecidableEq, Repr

namespace Callee

def name? : Callee → Option String
  | unqualified name => some name
  | qualified name => some name.name
  | member name => some name
  | other => none

end Callee

/-- Each expression starts with its position; for binary operators, assignments, increments and
decrements it is the position of the operator. -/
inductive Expr where
  | literal (pos : Position) (value : Literal)
  | var (pos : Position) (name : String)
  /-- The operands of a call are the object of a member or the expression that is called, if
  there is one, and the arguments. -/
  | call (pos : Position) (callee : Callee) (operands : List Expr)
  | unary (pos : Position) (op : UnaryOp) (operand : Expr)
  | binary (pos : Position) (op : BinaryOp) (left right : Expr)
  | assign (pos : Position) (compound : Bool) (target value : Expr)
  | cast (pos : Position) (toBool : Bool) (operand : Expr)
  | member (pos : Position) (object : Expr) (name : String)
  | conditional (pos : Position) (condition consequence alternative : Expr)
  /-- A conditional whose value is the condition itself if it holds. -/
  | shortConditional (pos : Position) (condition alternative : Expr)
  | other (pos : Position) (parts : List Expr)
deriving Repr

namespace Expr

def pos : Expr → Position
  | literal pos _ | var pos _ | call pos _ _ | unary pos _ _ | binary pos _ _ _
  | assign pos _ _ _ | cast pos _ _ | member pos _ _ | conditional pos _ _ _
  | shortConditional pos _ _ | other pos _ => pos

def variableName? : Expr → Option String
  | var _ name => some name
  | _ => none

def boolLiteral? : Expr → Option Bool
  | literal _ (.bool value) => some value
  | _ => none

/-- Removes one leading `!`. -/
def stripNot : Expr → Expr
  | unary _ .not operand => operand
  | e => e

def callee? : Expr → Option Callee
  | call _ callee _ => some callee
  | _ => none

/-- The direct subexpressions, in source order. -/
def children : Expr → List Expr
  | literal _ _ | var _ _ => []
  | call _ _ operands => operands
  | unary _ _ operand | cast _ _ operand => [operand]
  | binary _ _ left right => [left, right]
  | assign _ _ target value => [target, value]
  | member _ object _ => [object]
  | conditional _ condition consequence alternative => [condition, consequence, alternative]
  | shortConditional _ condition alternative => [condition, alternative]
  | other _ parts => parts

/-- The number of arguments of a call to `callee` with the given operands. -/
def argumentCount : Callee → List Expr → Nat
  | .member _, operands => operands.length - 1
  | _, operands => operands.length

end Expr

end TruthLint
