import TruthLint.Outline.Declarator

/-! The outline of a syntax tree. What a node contributes depends on the role in which it is read:
a name list, a condition and a statement read the same node in different ways. -/

namespace TruthLint

open Cst

/-- The ways in which a node is read. -/
inductive Role where
  /-- A declaration or statement, where an expression stands for itself. -/
  | item
  /-- A body, of which the contents count. -/
  | members
  /-- A place that is only searched for lambdas. -/
  | lambdas
  /-- The condition of a statement. -/
  | condition
  /-- A part of a condition. -/
  | tested
  /-- The type of a declaration, which may define a class. -/
  | typeSpecifier
  | declarator (base : VariableType) (context : RootContext)
  /-- The value that a variable, the target if there is one, starts with; the other position is
  that of the equals sign. -/
  | initializer (target : Option (String × Position)) (operator : Option Position)
    (context : RootContext)
  /-- An expression, where anything else is passed over. -/
  | evaluated (context : RootContext)
  | returned

/-- The children of a node, each with what it contributes in a given role. -/
abbrev Parts := List (Node × (Role → List Entry))

namespace Parts

/-- What the first child with a field contributes. -/
def first (parts : Parts) (field : Field) (role : Role) : List Entry :=
  match parts.find? (Node.hasField field ·.1) with
  | some (_, contribution) => contribution role
  | none => []

/-- What the children that satisfy `p` contribute. -/
def each (parts : Parts) (p : Node → Bool) (role : Role) : List Entry :=
  parts.flatMap fun (node, contribution) => if p node then contribution role else []

end Parts

namespace Outline

def line (node : Node) : Nat := node.position.line

/-- The outermost lambdas of an expression. A lambda body is a function scope at the place of the
lambda, and lambdas in it are found when it is read. -/
def lambdas (node : Node) (parts : Parts) : List Entry :=
  if node.kind = .lambdaExpression then
    let parameters := (node.child? .declarator).bind (·.child? .parameters)
    [.scope .function none (line node)
      ((parameters.map parameterEntries).getD [] ++ parts.first .body .members)]
  else parts.each Node.isContent .lambdas

/-- An expression that stands for itself, followed by the lambdas in it. -/
def evaluated (node : Node) (parts : Parts) (context : RootContext) : List Entry :=
  .root (.expression node) context :: lambdas node parts

def classBody (node : Node) (parts : Parts) : List Entry :=
  match node.child? .body with
  | some _ =>
    let name := (node.child? .name).map fun name =>
      String.ofList (Text.dropTemplateArguments (Text.lastSegment name.text.toList))
    [.scope .classBody name (line node) (parts.first .body .members)]
  | none => []

/-- The segments of the name of a namespace. -/
def nameSpacePath (name : String) : List String :=
  let segments := (Text.splitColons name.toList).map fun piece =>
    String.ofList (Text.trimChars piece)
  segments.filter fun segment => segment != "" && segment != "inline"

/-- The members of a namespace without a name belong to the scope around it. -/
def nameSpace (node : Node) (parts : Parts) : List Entry :=
  match node.child? .body, node.child? .name with
  | none, _ => []
  | some _, none => parts.first .body .members
  | some _, some name =>
    [.nameSpace (nameSpacePath name.text) (line node) (parts.first .body .members)]

def declaration (node : Node) (parts : Parts) (context : RootContext) : List Entry :=
  parts.first .type .typeSpecifier ++
    parts.each (Node.hasField .declarator) (.declarator (baseType node) context)

def equalsPosition? (node : Node) : Option Position :=
  (node.childOfKind? .equals).map Node.position

/-- A declared name with the value that it starts with, if it has one. -/
def initDeclarator (node : Node) (parts : Parts) (base : VariableType) (context : RootContext) :
    List Entry :=
  let declared := ((node.child? .declarator).map (Declared.ofNode base)).getD .unnamed
  declared.entries base ++
    parts.first .value (.initializer declared.target? (equalsPosition? node) context)

/-- The value that a variable starts with. Of a list of values each element stands for itself. -/
def initializer (node : Node) (parts : Parts) (target : Option (String × Position))
    (operator : Option Position) (context : RootContext) : List Entry :=
  if node.kind.isExpression then
    match target with
    | some (name, pos) =>
      .root (.initialization name pos (operator.getD node.position) node) context ::
        lambdas node parts
    | none => evaluated node parts context
  else parts.each Node.isContent (.evaluated context)

/-- Members of a class; a default value belongs to the last of them. -/
def fieldDeclaration (node : Node) (parts : Parts) : List Entry :=
  let base := baseType node
  let declared :=
    (node.children.filter (Node.hasField .declarator)).map (Declared.ofNode base)
  parts.first .type .typeSpecifier ++ declared.flatMap (·.entries base) ++
    parts.first .defaultValue
      (.initializer (declared.getLast?.bind (·.target?)) (equalsPosition? node) .initializer)

/-- A definition of a function. Without a declarator that makes it a function it is passed
over. -/
def functionDefinition (node : Node) (parts : Parts) : List Entry :=
  match (node.child? .declarator).bind (functionDeclarator? false) with
  | some (declarator, indirect) =>
    let name := declarator.child? .declarator
    let scopeName := name.map fun name => String.ofList (Text.lastSegment name.text.toList)
    let parameters := ((declarator.child? .parameters).map parameterEntries).getD []
    [.definition (name.bind QualifiedName.ofNode?) scopeName (.ofBase (baseType node) indirect)
      (line node) (parameters ++ parts.first .body .members)]
  | none => []

/-- The contents of a conditional inclusion, of which every branch is read. The condition itself
is passed over. -/
def inclusion (node : Node) (parts : Parts) : List Entry :=
  let condition := (node.child? .condition).or (node.child? .name)
  parts.each
    (fun child => child.isContent && condition.all fun c => c.label.row != child.label.row) .item

def block (node : Node) (body : List Entry) : List Entry := [.scope .block none (line node) body]

def rangeLoop (node : Node) (parts : Parts) : List Entry :=
  let base := baseType node
  let declared := ((node.child? .declarator).map (Declared.ofNode base)).getD .unnamed
  block node (declared.entries base ++ parts.first .right (.evaluated .statement) ++
    parts.first .body .item)

def item (node : Node) (parts : Parts) : List Entry :=
  match node.kind with
  | .functionDefinition => functionDefinition node parts
  | .declaration => declaration node parts .initializer
  | .fieldDeclaration => fieldDeclaration node parts
  | .classSpecifier | .structSpecifier | .unionSpecifier => classBody node parts
  | .namespaceDefinition => nameSpace node parts
  | .preprocIf | .preprocIfdef | .preprocElif | .preprocElifdef | .preprocElse =>
    inclusion node parts
  | .compoundStatement => block node (parts.each Node.isContent .item)
  | .ifStatement =>
    block node (parts.first .condition .condition ++ parts.first .consequence .item ++
      parts.first .alternative .item)
  | .whileStatement | .switchStatement =>
    block node (parts.first .condition .condition ++ parts.first .body .item)
  | .doStatement => parts.first .body .item ++ parts.first .condition .condition
  | .forStatement =>
    block node (parts.first .initializer .item ++ parts.first .condition .condition ++
      parts.first .update .item ++ parts.first .body .item)
  | .forRangeLoop => rangeLoop node parts
  | .returnStatement => parts.each Node.isContent .returned
  | kind =>
    if kind.isSkipped then []
    else if kind.isExpression then evaluated node parts .statement
    else parts.each Node.isContent .item

/-- A condition or a part of one: a declaration, an expression, or anything else. -/
def tested (node : Node) (parts : Parts) : List Entry :=
  match node.kind with
  | .declaration | .conditionDeclaration => declaration node parts .condition
  | kind => if kind.isExpression then evaluated node parts .condition else item node parts

def returned (node : Node) (parts : Parts) : List Entry :=
  if node.kind.isExpression then evaluated node parts .returned
  else if node.kind = .initializerList then parts.each Node.isContent (.evaluated .returned)
  else []

/-- What a node contributes, given what its children do. -/
def step (node : Node) (parts : Parts) : Role → List Entry
  | .item => item node parts
  | .members => parts.each Node.isContent .item
  | .lambdas => lambdas node parts
  | .condition =>
    if node.kind = .conditionClause then parts.each Node.isContent .tested
    else tested node parts
  | .tested => tested node parts
  | .typeSpecifier => if node.kind.isClass then classBody node parts else []
  | .declarator base context =>
    if node.kind = .initDeclarator then initDeclarator node parts base context
    else (Declared.ofNode base node).entries base
  | .initializer target operator context => initializer node parts target operator context
  | .evaluated context => if node.kind.isExpression then evaluated node parts context else []
  | .returned => returned node parts

mutual

/-- What a node contributes in a role. -/
def ofNode : Node → Role → List Entry
  | .mk label children => step (.mk label children) (ofNodes children)

def ofNodes : List Node → List (Node × (Role → List Entry))
  | [] => []
  | node :: nodes => (node, ofNode node) :: ofNodes nodes

end

theorem ofNodes_eq_map (nodes : List Node) :
    ofNodes nodes = nodes.map fun node => (node, ofNode node) := by
  induction nodes with
  | nil => rfl
  | cons node nodes ih => rw [ofNodes, ih]; rfl

/-- The outline of a whole tree. -/
def ofTree (root : Node) : List Entry := ofNode root .members

end Outline

end TruthLint
