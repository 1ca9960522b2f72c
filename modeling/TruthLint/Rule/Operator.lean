import TruthLint.Rule.Basic

/-! Rules for operators and assignments that are applied to boolean values. -/

namespace TruthLint.ExprRule

/-- The logical operator that is probably meant by a bitwise one. -/
def logicalCounterpart? : BinaryOp → Option String
  | .bitAnd => some "&&"
  | .bitOr => some "||"
  | _ => none

/-- `&` or `|` with a boolean variable, inside a condition. -/
def bitwiseOnBoolean : ExprRule where
  info :=
    { id := "B001"
      name := "bitwise-on-boolean"
      description := "Boolean variable used in a bitwise operation inside a condition"
      severity := .style
      inconclusive := true
      experimental := false
      examples := "// Bad\nif (ready & valid) \x7b\x7d\n\n// Good\nif (ready && valid) \x7b\x7d" }
  finding? model site
    | .binary pos op left right => do
      guard site.inCondition
      let logical ← logicalCounterpart? op
      let name ← (model.boolVariable? site.scope left).or (model.boolVariable? site.scope right)
      let message :=
        s!"Boolean variable '{name}' is used in bitwise operation. Did you mean '{logical}'?"
      some ⟨pos, message, message, s!"Replace '{op.symbol}' with '{logical}'"⟩
    | _ => none

/-- What to do about an incremented boolean. -/
def assignTrue : String := "You should assign it the value 'true' instead."

/-- A postfix `++` on a boolean variable. -/
def incrementBoolean : ExprRule where
  info :=
    { id := "B002"
      name := "increment-boolean"
      description := "Postfix increment of a boolean variable"
      severity := .style
      inconclusive := false
      experimental := false
      examples := "// Bad\nfound++;\n\n// Good\nfound = true;" }
  finding? model site
    | .unary pos .postIncrement (.var _ name) => do
      guard (model.variableType name site.scope = .boolean)
      some ⟨pos,
        "Incrementing a variable of type 'bool' with postfix operator++ is deprecated " ++
          "by the C++ Standard. " ++ assignTrue,
        "The operand of a postfix increment operator may be of type bool but it is deprecated " ++
          "by the C++ Standard (Annex D-1) and the operand is always set to true. " ++ assignTrue,
        s!"Replace '{name}++' with '{name} = true'"⟩
    | _ => none

/-- `true` or `false` assigned to a pointer. -/
def assignBoolToPointer : ExprRule where
  info :=
    { id := "B003"
      name := "assign-bool-to-pointer"
      description := "Boolean literal assigned to a pointer variable"
      severity := .error
      inconclusive := false
      experimental := false
      examples := "// Bad\nvoid f(bool *p) \x7b p = false; \x7d\n\n" ++
        "// Good\nvoid f(bool *p) \x7b *p = false; \x7d" }
  finding? model site
    | .assign pos false (.var _ name) (.literal _ (.bool _)) => do
      guard (model.variableType name site.scope = .pointer)
      let message := "Boolean value assigned to pointer."
      some ⟨pos, message, message, s!"Did you mean '*{name}'?"⟩
    | _ => none

end TruthLint.ExprRule
