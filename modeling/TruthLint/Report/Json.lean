/-! JSON values and their indented text: two spaces for each level, one member or item a line. -/

namespace TruthLint.Report

inductive Json where
  | bool (b : Bool)
  | number (n : Nat)
  | string (s : String)
  | array (items : List Json)
  | object (members : List (String × Json))

namespace Json

def hexDigits (n : Nat) : String :=
  String.ofList ['0', '0', Nat.digitChar (n / 16), Nat.digitChar (n % 16)]

/-- Quotes, backslashes and control characters below the space are escaped, and nothing else. -/
def escape (c : Char) : String :=
  match c with
  | '\x22' => "\\\""
  | '\x5c' => "\\\\"
  | '\x08' => "\\b"
  | '\x0c' => "\\f"
  | '\n' => "\\n"
  | '\r' => "\\r"
  | '\t' => "\\t"
  | c => if c.toNat < 0x20 then "\\u" ++ hexDigits c.toNat else c.toString

def quote (s : String) : String := "\"" ++ String.join (s.toList.map escape) ++ "\""

/-- A line break and the indentation of the line after it. -/
def lineBreak (depth : Nat) : String := "\n" ++ String.ofList (List.replicate (2 * depth) ' ')

mutual

/-- The text of a value that stands `depth` levels deep. -/
def renderAt (depth : Nat) : Json → String
  | bool b => if b then "true" else "false"
  | number n => toString n
  | string s => quote s
  | array items =>
    if items.isEmpty then "[]"
    else "[" ++ ",".intercalate (renderItems (depth + 1) items) ++ lineBreak depth ++ "]"
  | object members =>
    if members.isEmpty then "\x7b\x7d"
    else "\x7b" ++ ",".intercalate (renderMembers (depth + 1) members) ++ lineBreak depth ++ "\x7d"

/-- Each item with the line break in front of it. -/
def renderItems (depth : Nat) : List Json → List String
  | [] => []
  | item :: items => (lineBreak depth ++ renderAt depth item) :: renderItems depth items

/-- Each member with the line break in front of it. -/
def renderMembers (depth : Nat) : List (String × Json) → List String
  | [] => []
  | (key, value) :: members =>
    (lineBreak depth ++ quote key ++ ": " ++ renderAt depth value) :: renderMembers depth members

end

def render (value : Json) : String := value.renderAt 0

end Json

end TruthLint.Report
