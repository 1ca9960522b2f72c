import TruthLint.Toml.Scalar
import TruthLint.Toml.Value

/-! TOML documents: their text as a list of statements, and the tables that the statements build
one after the other. -/

namespace TruthLint.Toml

open Text (Reader)

/-- Keys have fewer parts than this, and values nest less deep. -/
def depthLimit : Nat := 80

def isBareKey (c : Char) : Bool := c.isAlphanum || c == '-' || c == '_'

/-- One part of a key. -/
def keyPart : Reader String := do
  blanks
  let part ← basicString <|> literalString <|> String.ofList <$> Reader.takeSome isBareKey
  blanks
  return part

def key : Reader Key := do
  let parts ← Reader.separated keyPart '.'
  guard (parts.length < depthLimit)
  match parts.getLast? with
  | some name => return ⟨parts.dropLast, name⟩
  | none => failure

/-- A key and its value, which `value` reads. -/
def pair (value : Reader Value) : Reader (Key × Value) := do
  let k ← key
  Reader.char '='
  blanks
  return (k, ← value)

def array (value : Reader Value) : Reader Value := do
  let item : Reader Value := do
    gap
    let v ← value
    gap
    return v
  let items : Reader (List Value) := do
    let vs ← Reader.separated item ','
    discard (Reader.maybe (Reader.char ','))
    return vs
  Reader.char '['
  let vs ← items <|> pure []
  gap
  Reader.char ']'
  return .array vs

/-- A table in braces. Dotted keys in it follow the same rules as elsewhere. -/
def braces (value : Reader Value) : Reader Value := do
  let item : Reader (Key × Value) := do
    let p ← pair value
    blanks
    return p
  Reader.char '\x7b'
  let pairs ← Reader.separated item ',' <|> pure []
  blanks
  Reader.char '\x7d'
  match pairs.foldlM (fun entries (k, v) => Entries.assign? k.name v k.path entries) [] with
  | some entries => return .table .braces entries
  | none => failure

/-- A value that holds no other values. -/
def plainValue : Reader Value :=
  .string <$> string <|>
  (do Reader.piece "true"; return .boolean true) <|>
  (do Reader.piece "false"; return .boolean false) <|>
  (do moment; return .moment) <|>
  (do float; return .number) <|>
  (do integer; return .number)

/-- A value in which arrays and tables nest at most `room` deep. -/
def value : (room : Nat) → Reader Value
  | 0 => plainValue
  | room + 1 => array (value room) <|> braces (value room) <|> plainValue

inductive Statement where
  /-- What follows belongs to a table. -/
  | table (k : Key)
  /-- What follows belongs to a new table of an array. -/
  | element (k : Key)
  | assign (k : Key) (v : Value)

def statement : Reader Statement :=
  (do
    Reader.piece "[["
    let k ← key
    Reader.piece "]]"
    return .element k) <|>
  (do
    Reader.char '['
    let k ← key
    Reader.char ']'
    return .table k) <|>
  (do
    let (k, v) ← pair (value (depthLimit - 1))
    return .assign k v)

/-- A statement up to the end of its line, or an empty line. -/
def line : Reader (Option Statement) := do
  let s ← (do comment; newline <|> Reader.atEnd; return none) <|>
    (do newline; return none) <|>
    (do
      let s ← statement
      lineEnd
      return some s)
  blanks
  return s

/-- All statements of a text, which may begin with a byte order mark. -/
def statements : Reader (List Statement) := do
  discard (Reader.maybe (Reader.char '\ufeff'))
  blanks
  let lines ← Reader.many line
  Reader.atEnd
  return lines.filterMap id

/-- The tables built so far, and the path of the table that assignments go to. -/
structure Builder where
  root : Entries
  current : List String

namespace Builder

def add? (b : Builder) : Statement → Option Builder
  | .table k => do
    let root ← Entries.within? (Entries.openTable? k.name) k.path b.root
    return ⟨root, k.whole⟩
  | .element k => do
    let root ← Entries.within? (Entries.openElement? k.name) k.path b.root
    return ⟨root, k.whole⟩
  | .assign k v => do
    let root ← Entries.within? (Entries.assign? k.name v k.path) b.current b.root
    return ⟨root, b.current⟩

end Builder

def build? (ss : List Statement) : Option Entries :=
  (ss.foldlM Builder.add? ⟨[], []⟩).map (·.root)

/-- The entries of the table that a text describes, if it is well formed. -/
def read? (text : String) : Option Entries := do
  let (ss, _) ← statements text.toList
  build? ss

end TruthLint.Toml
