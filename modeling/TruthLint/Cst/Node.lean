import TruthLint.Position
import TruthLint.Cst.Kind

/-! Concrete syntax trees. A node knows its text and its position, so that what is read from a
tree does not need the source text any more. -/

namespace TruthLint.Cst

/-- The roles of children that are asked for by name. -/
inductive Field where
  | alternative | argument | arguments | body | condition | consequence | declarator
  | defaultValue | function | initializer | left | member | name | operator | parameters | right
  | type | update | value
deriving DecidableEq, Repr

namespace Field

def ofName? : String → Option Field
  | "alternative" => some alternative
  | "argument" => some argument
  | "arguments" => some arguments
  | "body" => some body
  | "condition" => some condition
  | "consequence" => some consequence
  | "declarator" => some declarator
  | "default_value" => some defaultValue
  | "field" => some member
  | "function" => some function
  | "initializer" => some initializer
  | "left" => some left
  | "name" => some name
  | "operator" => some operator
  | "parameters" => some parameters
  | "right" => some right
  | "type" => some type
  | "update" => some update
  | "value" => some value
  | _ => none

end Field

structure Label where
  kind : Kind
  /-- The role that the parent gives to the node. -/
  field : Option Field
  named : Bool
  isError : Bool
  isMissing : Bool
  /-- Whether the node is or contains an error or a missing node. -/
  hasError : Bool
  /-- The number of the node in preorder; it tells nodes of one tree apart. -/
  row : Nat
  /-- The offset of the first byte. -/
  start : Nat
  position : Position
  text : String
deriving DecidableEq, Repr

inductive Node where
  | mk (label : Label) (children : List Node)

namespace Node

def label : Node → Label
  | mk label _ => label

def children : Node → List Node
  | mk _ children => children

def kind (node : Node) : Kind := node.label.kind
def text (node : Node) : String := node.label.text
def position (node : Node) : Position := node.label.position

/-- Named nodes other than comments. -/
def isContent (node : Node) : Bool := node.label.named && node.kind != .comment

def hasField (field : Field) (node : Node) : Bool := node.label.field == some field

/-- The named children, comments excluded. -/
def contents (node : Node) : List Node := node.children.filter isContent

/-- The first child in a role. -/
def child? (node : Node) (field : Field) : Option Node := node.children.find? (hasField field)

/-- The first child of a kind, named or not. -/
def childOfKind? (node : Node) (kind : Kind) : Option Node :=
  node.children.find? (·.kind == kind)

mutual

/-- The nodes of a tree in preorder. -/
def preorder : Node → List Node
  | mk label children => mk label children :: preorderAll children

def preorderAll : List Node → List Node
  | [] => []
  | node :: nodes => preorder node ++ preorderAll nodes

end

theorem preorderAll_eq_flatMap (nodes : List Node) :
    preorderAll nodes = nodes.flatMap preorder := by
  induction nodes with
  | nil => rfl
  | cons node nodes ih => rw [preorderAll, ih]; rfl

end Node

end TruthLint.Cst
