import TruthLint.Rule.Basic

/-! Rules for comparisons that mix booleans with integers or that order booleans. -/

namespace TruthLint.ExprRule

/-- Why it is suspicious to order booleans. -/
def relationalRisk : String :=
  "Comparing 'bool' value using relational (<, >, <= or >=) operator " ++
    "could cause unexpected results."

/-- How messages say that booleans are ordered. -/
def usingRelational : String := " using relational (<, >, <= or >=) operator."

def isZeroOrOne (value : Option Nat) : Bool := value == some 0 || value == some 1

/-- The message for a boolean expression on the left of `op`, compared with a value of the other
class. -/
def exprWithInt? (op : BinaryOp) : ValueClass → Option String
  | .numberLiteral value =>
    let meaningful :=
      if op.isEquality then isZeroOrOne value
      else (op == .gt && value == some 0) || (op == .lt && value == some 1)
    if meaningful then none
    else some "Comparison of a boolean expression with an integer other than 0 or 1."
  | .intVariable =>
    if op.isEquality then some "Comparison of a boolean expression with an integer." else none
  | _ => none

/-- A boolean expression compared with an integer. -/
def boolExpressionWithInt : ExprRule where
  info :=
    { id := "B004"
      name := "compare-bool-expression-with-int"
      description := "Boolean expression compared with an integer"
      severity := .warning
      inconclusive := false
      experimental := false
      examples := "// Bad\nif (!x == 10) \x7b\x7d\n\n// Good\nif (x != 10) \x7b\x7d" }
  finding? model site
    | .binary pos op left right => do
      guard op.isComparison
      let message ←
        match model.classify site.scope left, model.classify site.scope right with
        | .boolExpr, .boolExpr => none
        | .boolExpr, right => exprWithInt? op right
        | left, .boolExpr => exprWithInt? op.mirrored left
        | _, _ => none
      some ⟨pos, message,
        "The result of a boolean expression is either 0 or 1. Comparing it with an integer is " ++
          "suspicious and usually means the parentheses or the operator are wrong.",
        none⟩
    | _ => none

/-- The ways in which a boolean and another value are badly compared. -/
inductive BoolWithInt where
  | integer | neitherOneNorZero | relational
deriving DecidableEq, Repr

namespace BoolWithInt

def message : BoolWithInt → String
  | integer => "Comparison of a boolean with an integer."
  | neitherOneNorZero => "Comparison of a boolean with an integer that is neither 1 nor 0."
  | relational => "Comparison of a boolean value using relational operator (<, >, <= or >=)."

def explanation : BoolWithInt → String
  | relational => "The result of the expression is of type 'bool'. " ++ relationalRisk
  | _ =>
    "A boolean value is 0 or 1. Comparing it with an integer is suspicious; " ++
      "compare with true or false, or convert the integer explicitly."

/-- What is wrong with comparing a boolean, given first, with the other value. -/
def of? (op : BinaryOp) : (boolean value : ValueClass) → Option BoolWithInt
  | .boolVariable, .numberLiteral value =>
    if op.isEquality then (if isZeroOrOne value then none else some neitherOneNorZero)
    else some integer
  | .boolVariable, .intVariable => some integer
  | .boolLiteral _, .intVariable => some integer
  | .boolLiteral _, .numberLiteral _ => some integer
  | .boolLiteral _, .boolVariable => if op.isRelational then some relational else none
  | _, _ => none

end BoolWithInt

/-- A boolean variable or literal compared with an integer. -/
def boolWithInt : ExprRule where
  info :=
    { id := "B005"
      name := "compare-bool-with-int"
      description := "Boolean variable or literal compared with an integer"
      severity := .warning
      inconclusive := false
      experimental := false
      examples := "// Bad\nif (flag == 10) \x7b\x7d\nif (count > false) \x7b\x7d\n\n" ++
        "// Good\nif (flag) \x7b\x7d\nif (count > 0) \x7b\x7d" }
  finding? model site
    | .binary pos op left right => do
      guard op.isComparison
      let left := model.classify site.scope left
      let right := model.classify site.scope right
      let problem ← (BoolWithInt.of? op left right).or (BoolWithInt.of? op right left)
      some ⟨pos, problem.message, problem.explanation, none⟩
    | _ => none

/-- The name in a call, as far as it has one. -/
def calledName (call : Expr) : String := (call.callee?.bind Callee.name?).getD "?"

/-- An ordering of one or two results of functions that return a boolean. -/
def functionReturningBool : ExprRule where
  info :=
    { id := "B006"
      name := "compare-function-returning-bool"
      description := "Relational comparison involving a function that returns bool"
      severity := .style
      inconclusive := false
      experimental := false
      examples := "// Bad\nif (isReady() > isValid()) \x7b\x7d\n\n" ++
        "// Good\nif (isReady() && !isValid()) \x7b\x7d" }
  finding? model site
    | .binary pos op left right => do
      guard op.isRelational
      let consequence := s!"is 'bool' and result is of type 'bool'. {relationalRisk}"
      let one (call : Expr) : Finding := ⟨pos,
        "Comparison of a function returning boolean value" ++ usingRelational,
        s!"The return type of function '{calledName call}' " ++ consequence, none⟩
      match model.boolCall? site.scope left, model.boolCall? site.scope right with
      | some first, some second =>
        some ⟨pos, "Comparison of two functions returning boolean value" ++ usingRelational,
          s!"The return type of function '{calledName first}' " ++
            s!"and function '{calledName second}' " ++ consequence, none⟩
      | some call, none => some (one call)
      | none, some call => some (one call)
      | none, none => none
    | _ => none

/-- An ordering of two boolean variables. -/
def boolWithBool : ExprRule where
  info :=
    { id := "B007"
      name := "compare-bool-with-bool"
      description := "Relational comparison of two boolean variables"
      severity := .style
      inconclusive := false
      experimental := true
      examples := "// Bad\nif (a > b) \x7b\x7d\n\n// Good\nif (a && !b) \x7b\x7d" }
  finding? model site
    | .binary pos op (.var _ left) (.var _ right) => do
      guard op.isRelational
      guard (model.variableType left site.scope = .boolean)
      guard (model.variableType right site.scope = .boolean)
      some ⟨pos,
        "Comparison of a variable having boolean value" ++ usingRelational,
        s!"The variable '{left}' is of type 'bool'. {relationalRisk}",
        none⟩
    | _ => none

end TruthLint.ExprRule
