import TruthLint.Text.Search

/-! Names of functions, with the scopes that qualify them. -/

namespace TruthLint

/-- `f`, `N::f`, `::f` or `::N::M::f`. -/
structure QualifiedName where
  /-- Whether the name starts at the global scope. -/
  global : Bool
  path : List String
  name : String
deriving DecidableEq, Repr

namespace QualifiedName

/-- The name with the given segments, of which the last names the function itself. -/
def ofSegments? (global : Bool) (segments : List String) : Option QualifiedName :=
  segments.getLast?.map fun name => ⟨global, segments.dropLast, name⟩

end QualifiedName

namespace Text

/-- Whether the text is the name of the boolean type, blanks aside. -/
def isBoolType (s : String) : Bool := trim s == "bool" || trim s == "_Bool"

/-- What stands before the first `<`. -/
def dropTemplateArguments (cs : List Char) : List Char := cs.takeWhile (· != '<')

/-- What follows the rightmost double colon, or everything if there is none, blanks aside. -/
def lastSegment (cs : List Char) : List Char :=
  match cut? [':', ':'] cs.reverse with
  | some (last, _) => trimChars last.reverse
  | none => trimChars cs

end Text

end TruthLint
