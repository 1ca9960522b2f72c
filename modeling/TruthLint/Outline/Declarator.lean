import TruthLint.Outline.Entry

/-! What declarators declare. A declarator wraps a name in pointers, references, arrays and
parentheses, and the wrapper closest to the name decides. -/

namespace TruthLint

open Cst

/-- The names of the standard arithmetic types. -/
def arithmeticTypes : List String :=
  ["char", "char8_t", "char16_t", "char32_t", "wchar_t", "short", "int", "long", "signed",
    "unsigned", "float", "double", "size_t", "ssize_t", "ptrdiff_t", "intptr_t", "uintptr_t",
    "int8_t", "int16_t", "int32_t", "int64_t", "uint8_t", "uint16_t", "uint32_t", "uint64_t"]

/-- The type that a type node gives to a plain name. -/
def VariableType.ofTypeNode (node : Node) : VariableType :=
  if Text.isBoolType node.text then .boolean
  else match node.kind with
    | .sizedTypeSpecifier => .integer
    | .primitiveType | .typeIdentifier =>
      if arithmeticTypes.contains (Text.trim node.text) then .integer else .other
    | _ => .other

/-- The base type of the names that a node declares. -/
def baseType (node : Node) : VariableType :=
  ((node.child? .type).map VariableType.ofTypeNode).getD .other

/-- What a function returns whose declaration has this base type; `indirect` says that it returns
through a pointer or reference. -/
def ReturnKind.ofBase (base : VariableType) (indirect : Bool) : ReturnKind :=
  if base = .boolean ∧ indirect = false then .boolean else .other

/-- The name that a node gives to a function. Template arguments and blanks in a qualified name
are left out. -/
def QualifiedName.ofNode? (node : Node) : Option QualifiedName :=
  match node.kind with
  | .qualifiedIdentifier =>
    let text := node.text.toList
    let segments := (Text.splitColons text).map fun segment =>
      Text.trimChars (Text.dropTemplateArguments segment)
    QualifiedName.ofSegments? (Text.afterLead? [':', ':'] (text.dropWhile Text.isBlank)).isSome
      ((segments.filter fun segment => !segment.isEmpty).map String.ofList)
  | .identifier | .fieldIdentifier | .destructorName | .operatorName =>
    some ⟨false, [], node.text⟩
  | _ => none

/-- What a declarator introduces. -/
inductive Declared where
  | var (name : String) (type : VariableType) (pos : Position)
  /-- A function, named by a node; `indirect` says that it returns through a pointer or
  reference. -/
  | function (name : Node) (indirect : Bool) (line : Nat)
  | unnamed

namespace Declared

/-- A function behind a pointer or reference returns indirectly. -/
def behindPointer : Declared → Declared
  | function name _ line => function name true line
  | declared => declared

/-- A parenthesized name that is called is a function or member pointer. -/
def asPointer : Declared → Declared
  | var name _ pos => var name .other pos
  | _ => unnamed

mutual

/-- What a declarator introduces with the given base type. -/
def ofNode (base : VariableType) : Node → Declared
  | .mk label children =>
    match label.kind with
    | .identifier | .fieldIdentifier => var label.text base label.position
    | .pointerDeclarator => (ofFirst (Node.hasField .declarator) .pointer children).behindPointer
    | .referenceDeclarator => (ofFirst Node.isContent base children).behindPointer
    | .arrayDeclarator => ofFirst (Node.hasField .declarator) .other children
    | .parenthesizedDeclarator | .attributedDeclarator => ofFirst Node.isContent base children
    | .functionDeclarator =>
      match children.find? (Node.hasField .declarator) with
      | some inner =>
        if inner.kind = .parenthesizedDeclarator then
          (ofFirst (Node.hasField .declarator) .other children).asPointer
        else function inner false label.position.line
      | none => unnamed
    | _ => unnamed

/-- What the first of the nodes that satisfies `p` introduces. -/
def ofFirst (p : Node → Bool) (base : VariableType) : List Node → Declared
  | [] => unnamed
  | node :: nodes => if p node then ofNode base node else ofFirst p base nodes

end

theorem ofFirst_eq (p : Node → Bool) (base : VariableType) (nodes : List Node) :
    ofFirst p base nodes =
      match nodes.find? p with
      | some node => ofNode base node
      | none => unnamed := by
  induction nodes with
  | nil => rfl
  | cons node nodes ih =>
    rw [ofFirst]
    by_cases h : p node = true <;> simp [h, ih]

/-- The declared variable with its position. -/
def target? : Declared → Option (String × Position)
  | var name _ pos => some (name, pos)
  | _ => none

def entries (base : VariableType) : Declared → List Entry
  | var name type pos => [.var name type pos.line]
  | function name indirect line =>
    match QualifiedName.ofNode? name with
    | some name => [.function name (.ofBase base indirect) line]
    | none => []
  | unnamed => []

/-- A parameter that looks like a function is a function pointer. -/
def parameterEntries : Declared → List Entry
  | var name type pos => [.var name type pos.line]
  | function name _ line => [.var name.text .other line]
  | unnamed => []

end Declared

mutual

/-- The function declarator inside pointers, references and parentheses; the second part says
whether a pointer or reference was crossed. -/
def functionDeclarator? (indirect : Bool) : Node → Option (Node × Bool)
  | .mk label children =>
    match label.kind with
    | .functionDeclarator => some (.mk label children, indirect)
    | .pointerDeclarator => firstFunctionDeclarator? (Node.hasField .declarator) true children
    | .referenceDeclarator => firstFunctionDeclarator? Node.isContent true children
    | .parenthesizedDeclarator | .attributedDeclarator =>
      firstFunctionDeclarator? Node.isContent indirect children
    | _ => none

def firstFunctionDeclarator? (p : Node → Bool) (indirect : Bool) :
    List Node → Option (Node × Bool)
  | [] => none
  | node :: nodes =>
    if p node then functionDeclarator? indirect node
    else firstFunctionDeclarator? p indirect nodes

end

theorem firstFunctionDeclarator?_eq (p : Node → Bool) (indirect : Bool) (nodes : List Node) :
    firstFunctionDeclarator? p indirect nodes =
      (nodes.find? p).bind (functionDeclarator? indirect) := by
  induction nodes with
  | nil => rfl
  | cons node nodes ih =>
    rw [firstFunctionDeclarator?]
    by_cases h : p node = true <;> simp [h, ih]

/-- The parameters that a list of parameters declares. -/
def parameterEntries (parameters : Node) : List Entry :=
  parameters.contents.flatMap fun parameter =>
    match parameter.kind, parameter.child? .declarator with
    | .parameterDeclaration, some declarator | .optionalParameterDeclaration, some declarator =>
      (Declared.ofNode (baseType parameter) declarator).parameterEntries
    | _, _ => []

end TruthLint
