import TruthLint.Cst.Node
import TruthLint.Expr.Basic
import TruthLint.Number.Literal

/-! Expressions of syntax nodes. Each level of nesting takes one unit of room, and where there
is no room left the expression is `other` without parts. -/

namespace TruthLint

open Cst

namespace Callee

/-- The callee that a qualified name stands for; template arguments make it unknown. -/
def ofQualified (text : String) : Callee :=
  let compact := text.toList.filter fun c => !Text.isBlank c
  if compact.contains '<' then other
  else
    let segments := (Text.splitColons compact).filter fun piece => !piece.isEmpty
    let global := (Text.afterLead? [':', ':'] compact).isSome
    match QualifiedName.ofSegments? global (segments.map String.ofList) with
    | some name => qualified name
    | none => other

end Callee

namespace Expr

/-- The text of the operator of a node. -/
def operatorToken (node : Node) : String := ((node.child? .operator).map Node.text).getD ""

def operatorPosition (node : Node) : Position :=
  ((node.child? .operator).map Node.position).getD node.position

def memberName (node : Node) : String := ((node.child? .member).map Node.text).getD ""

/-- A node of a kind that is not read further. -/
def unread (node : Node) : Expr := other node.position []

/-- The subexpression in a role of `node`, given how subexpressions are read. -/
def part (sub : Node → Expr) (node : Node) (field : Field) : Expr :=
  match node.child? field with
  | some child => sub child
  | none => unread node

/-- A conversion has one operand; with any other number of them it is not one. -/
def conversion (pos : Position) (toBool : Bool) : List Expr → Expr
  | [operand] => cast pos toBool operand
  | operands => other pos operands

/-- The names of the templates that convert their argument to their template argument. -/
def castTemplates : List String :=
  ["static_cast", "const_cast", "reinterpret_cast", "dynamic_cast"]

/-- Whether the template arguments, angle brackets aside, are the boolean type. -/
def isBoolArgument (arguments : Node) : Bool :=
  let inner := Text.dropEndWhile (· == '>') (arguments.text.toList.dropWhile (· == '<'))
  Text.isBoolType (String.ofList inner)

def updateOp (node : Node) : UnaryOp :=
  let start (field : Field) := ((node.child? field).map (·.label.start)).getD 0
  match operatorToken node == "++", decide (start .operator < start .argument) with
  | true, true => .preIncrement
  | true, false => .postIncrement
  | false, true => .preDecrement
  | false, false => .postDecrement

def ofUnary (sub : Node → Expr) (node : Node) : Expr :=
  let operand := part sub node .argument
  match operatorToken node with
  | "!" => unary node.position .not operand
  | "not" => unary node.position .not operand
  | "-" => unary node.position .negate operand
  | "~" => unary node.position .bitNot operand
  | "compl" => unary node.position .bitNot operand
  | _ => other node.position [operand]

/-- A call of `function`. A call of a type or of a casting template is a conversion, and what is
called is an operand unless it is a name. -/
def ofCall (sub : Node → Expr) (node function : Node) (arguments : List Expr) : Expr :=
  match function.kind with
  | .identifier => call node.position (.unqualified function.text) arguments
  | .qualifiedIdentifier => call node.position (.ofQualified function.text) arguments
  | .fieldExpression =>
    call node.position (.member (memberName function)) (part sub function .argument :: arguments)
  | .primitiveType | .sizedTypeSpecifier =>
    conversion node.position (Text.isBoolType function.text) arguments
  | .templateFunction =>
    if castTemplates.contains (((function.child? .name).map Node.text).getD "") then
      conversion node.position ((function.child? .arguments).any isBoolArgument) arguments
    else call node.position .other arguments
  | _ => call node.position .other (sub function :: arguments)

/-- The expression of a node, given how its subexpressions are read. -/
def ofNodeWith (sub : Node → Expr) (node : Node) : Expr :=
  match node.kind with
  | .parenthesizedExpression =>
    match node.contents with
    | inner :: _ => sub inner
    | [] => unread node
  | .binaryExpression =>
    binary (operatorPosition node) (.ofToken (operatorToken node)) (part sub node .left)
      (part sub node .right)
  | .unaryExpression => ofUnary sub node
  | .pointerExpression =>
    let op := if operatorToken node = "&" then UnaryOp.addressOf else .deref
    unary node.position op (part sub node .argument)
  | .updateExpression => unary (operatorPosition node) (updateOp node) (part sub node .argument)
  | .assignmentExpression =>
    assign (operatorPosition node) (operatorToken node != "=") (part sub node .left)
      (part sub node .right)
  | .callExpression =>
    let arguments := ((node.child? .arguments).map Node.contents).getD []
    match node.child? .function with
    | some function => ofCall sub node function (arguments.map sub)
    | none => other node.position (arguments.map sub)
  | .fieldExpression => member node.position (part sub node .argument) (memberName node)
  | .castExpression =>
    cast node.position ((node.child? .type).any fun type => Text.isBoolType type.text)
      (part sub node .value)
  | .conditionalExpression =>
    match node.child? .consequence with
    | some consequence =>
      conditional node.position (part sub node .condition) (sub consequence)
        (part sub node .alternative)
    | none =>
      shortConditional node.position (part sub node .condition) (part sub node .alternative)
  | .numberLiteral => literal node.position (.number (Number.literal? node.text))
  | .trueLiteral => literal node.position (.bool true)
  | .falseLiteral => literal node.position (.bool false)
  | .stringLiteral | .rawStringLiteral | .concatenatedString | .charLiteral | .null | .nullptr
  | .userDefinedLiteral => literal node.position .other
  | .identifier => var node.position node.text
  | .lambdaExpression | .error => unread node
  | _ => other node.position (node.contents.map sub)

/-- The expression of a node with at most `room` levels of nesting read. -/
def ofNodeWithin : (room : Nat) → Node → Expr
  | 0, node => unread node
  | room + 1, node => ofNodeWith (ofNodeWithin room) node

/-- The levels of nesting that are read. The bound keeps generated sources from exhausting the
stack. -/
def nestingLimit : Nat := 200

def ofNode (node : Node) : Expr := ofNodeWithin nestingLimit node

end Expr

end TruthLint
