/-! Operators of expressions. Operators that no rule tells apart are all `arithmetic`. -/

namespace TruthLint

inductive UnaryOp where
  | not | addressOf | deref | negate | bitNot
  | preIncrement | preDecrement | postIncrement | postDecrement
deriving DecidableEq, Repr

inductive BinaryOp where
  | bitAnd | bitOr | bitXor | and | or | eq | ne | lt | gt | le | ge | arithmetic
deriving DecidableEq, Repr

namespace BinaryOp

def ofToken : String → BinaryOp
  | "&" => bitAnd
  | "bitand" => bitAnd
  | "|" => bitOr
  | "bitor" => bitOr
  | "^" => bitXor
  | "xor" => bitXor
  | "&&" => and
  | "and" => and
  | "||" => or
  | "or" => or
  | "==" => eq
  | "!=" => ne
  | "not_eq" => ne
  | "<" => lt
  | ">" => gt
  | "<=" => le
  | ">=" => ge
  | _ => arithmetic

def symbol : BinaryOp → String
  | bitAnd => "&"
  | bitOr => "|"
  | bitXor => "^"
  | and => "&&"
  | or => "||"
  | eq => "=="
  | ne => "!="
  | lt => "<"
  | gt => ">"
  | le => "<="
  | ge => ">="
  | arithmetic => "?"

def isEquality : BinaryOp → Bool
  | eq | ne => true
  | _ => false

def isRelational : BinaryOp → Bool
  | lt | gt | le | ge => true
  | _ => false

def isComparison (op : BinaryOp) : Bool := op.isEquality || op.isRelational

def isLogical : BinaryOp → Bool
  | and | or => true
  | _ => false

/-- The operator that means the same with the operands exchanged: `a < b` is `b > a`. -/
def mirrored : BinaryOp → BinaryOp
  | lt => gt
  | gt => lt
  | le => ge
  | ge => le
  | op => op

@[simp] theorem mirrored_mirrored (op : BinaryOp) : op.mirrored.mirrored = op := by
  cases op <;> rfl

@[simp] theorem isEquality_mirrored (op : BinaryOp) : op.mirrored.isEquality = op.isEquality := by
  cases op <;> rfl

@[simp] theorem isRelational_mirrored (op : BinaryOp) :
    op.mirrored.isRelational = op.isRelational := by
  cases op <;> rfl

@[simp] theorem isComparison_mirrored (op : BinaryOp) :
    op.mirrored.isComparison = op.isComparison := by
  cases op <;> rfl

end BinaryOp

end TruthLint
