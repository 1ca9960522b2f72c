import TruthLint.Outline.Basic

/-! The semantic model of a source file: its scopes, its declarations and the expressions that the
rules look at. A model is recorded from an outline, entry by entry, and recording only adds to
it. -/

namespace TruthLint

/-- A whole expression with the scope in which it is evaluated. -/
structure Root where
  expr : Expr
  scope : Nat
  context : RootContext

structure Model where
  scopes : ScopeTree
  symbols : SymbolTable
  roots : Array Root

namespace Model

/-- The scope that every model starts with. -/
def globalScope : Nat := 0

/-- The global scope and nothing declared. -/
def initial : Model := ⟨ScopeTree.empty.create .global none none 1, .empty, #[]⟩

def createScope (model : Model) (kind : ScopeKind) (name : Option String) (parent line : Nat) :
    Model :=
  { model with scopes := model.scopes.create kind name (some parent) line }

def declareVariable (model : Model) (name : String) (type : VariableType) (scope line : Nat) :
    Model :=
  { model with symbols := model.symbols.declareVariable name type scope line }

def declareFunction (model : Model) (name : String) (returns : ReturnKind) (scope line : Nat) :
    Model :=
  { model with symbols := model.symbols.declareFunction name returns scope line }

def addRoot (model : Model) (root : Root) : Model :=
  { model with roots := model.roots.push root }

/-- The namespace or class of this name in a scope; a namespace is created if there is none. -/
def openChild (model : Model) (parent : Nat) (name : String) (line : Nat) : Model × Nat :=
  match model.scopes.findChild? parent name with
  | some child => (model, child)
  | none => (model.createScope .nameSpace (some name) parent line, model.scopes.size)

/-- Follows a path downwards from a scope, and creates the namespaces that are missing. -/
def openPath (model : Model) (scope : Nat) (line : Nat) : List String → Model × Nat
  | [] => (model, scope)
  | name :: path =>
    let (model, child) := model.openChild scope name line
    model.openPath child line path

/-- The scope in which a function of this name is declared. The first segment of its path is
looked for in the enclosing scopes, unless the name starts at the global scope. -/
def openOwner (model : Model) (current : Nat) (line : Nat) (name : QualifiedName) : Model × Nat :=
  let start := if name.global then globalScope else current
  match name.path with
  | [] => (model, start)
  | segment :: path =>
    let found :=
      if name.global then model.scopes.findChild? start segment
      else (model.scopes.ancestors start).findSome? (model.scopes.findChild? · segment)
    match found with
    | some scope => model.openPath scope line path
    | none => model.openPath start line (segment :: path)

/-- Declares a function in the scope that its name asks for. -/
def declareNamed (model : Model) (current : Nat) (name : QualifiedName) (returns : ReturnKind)
    (line : Nat) : Model × Nat :=
  let (model, owner) := model.openOwner current line name
  (model.declareFunction name.name returns owner line, owner)

mutual

/-- Records an entry that is met in the scope `current`. -/
def record (current : Nat) (model : Model) : Entry → Model
  | .var name type line => model.declareVariable name type current line
  | .function name returns line => (model.declareNamed current name returns line).1
  | .root seed context => model.addRoot ⟨seed.expr, current, context⟩
  | .scope kind name line body =>
    recordAll model.scopes.size (model.createScope kind name current line) body
  | .nameSpace path line body =>
    let (model, scope) := model.openPath current line path
    recordAll scope model body
  | .definition declared name returns line body =>
    let (model, owner) := match declared with
      | some declared => model.declareNamed current declared returns line
      | none => (model, current)
    recordAll model.scopes.size (model.createScope .function name owner line) body

def recordAll (current : Nat) (model : Model) : List Entry → Model
  | [] => model
  | entry :: entries => recordAll current (record current model entry) entries

end

theorem recordAll_eq_foldl (current : Nat) (model : Model) (entries : List Entry) :
    recordAll current model entries = entries.foldl (record current) model := by
  induction entries generalizing model with
  | nil => rfl
  | cons entry entries ih => rw [recordAll, ih]; rfl

/-- The model of an outline that starts in the global scope. -/
def ofOutline (entries : List Entry) : Model := recordAll globalScope initial entries

def ofTree (root : Cst.Node) : Model := ofOutline (Outline.ofTree root)

def variableType (model : Model) (name : String) (scope : Nat) : VariableType :=
  model.symbols.variableType model.scopes name scope

def resolve? (model : Model) (callee : Callee) (scope : Nat) : Option Function :=
  model.symbols.resolve? model.scopes callee scope

end Model

end TruthLint
