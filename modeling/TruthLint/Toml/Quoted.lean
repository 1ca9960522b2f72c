import TruthLint.Toml.Layout

/-! Strings of TOML texts: basic ones in double quotes, with escapes, and literal ones in single
quotes, each on one line or between tripled quotes on several. -/

namespace TruthLint.Toml

open Text (Reader)

def hexDigit? (c : Char) : Option Nat :=
  if '0' ≤ c ∧ c ≤ '9' then some (c.toNat - '0'.toNat)
  else if 'a' ≤ c ∧ c ≤ 'f' then some (c.toNat - 'a'.toNat + 10)
  else if 'A' ≤ c ∧ c ≤ 'F' then some (c.toNat - 'A'.toNat + 10)
  else none

def isHexDigit (c : Char) : Bool := (hexDigit? c).isSome

/-- The character whose number is written with `n` hexadecimal digits. -/
def scalar (n : Nat) : Reader Char := do
  let digits ← Reader.exactly n isHexDigit
  let number := digits.foldl (fun number c => 16 * number + (hexDigit? c).getD 0) 0
  if number.isValidChar then return Char.ofNat number else failure

/-- The character that an escape sequence stands for. -/
def escape : Reader Char := do
  Reader.char '\x5c'
  match ← Reader.satisfying fun _ => true with
  | 'b' => return '\x08'
  | 'f' => return '\x0c'
  | 'n' => return '\n'
  | 'r' => return '\r'
  | 't' => return '\t'
  | 'u' => scalar 4
  | 'U' => scalar 8
  | '\x5c' => return '\x5c'
  | '\x22' => return '\x22'
  | _ => failure

def isBasic (c : Char) : Bool := isPrintable c && c != '\x22' && c != '\x5c'

def isLiteral (c : Char) : Bool := isPrintable c && c != '\x27'

/-- A backslash at the end of a line hides all blanks and line feeds that follow. -/
def lineContinuation : Reader Unit := do
  Reader.char '\x5c'
  blanks
  newline
  discard (Reader.many (newline <|> discard (Reader.takeSome fun c => c == ' ' || c == '\t')))

/-- Pieces of text between quotes on one line. -/
def oneLine (quote : Char) (content : Reader (List Char)) : Reader String := do
  Reader.char quote
  let pieces ← Reader.many content
  Reader.char quote
  return String.ofList pieces.flatten

/-- One or two quotes that do not end a string. -/
def innerQuotes (quote : Char) : Reader (List Char) :=
  (do
    Reader.char quote
    Reader.char quote
    Reader.nextIsNot quote
    return [quote, quote]) <|>
  (do
    Reader.char quote
    Reader.nextIsNot quote
    return [quote])

def tripled (quote : Char) : Reader Unit := do
  Reader.char quote
  Reader.char quote
  Reader.char quote

/-- The end of a string on several lines. Up to two quotes in front of it belong to the string. -/
def closing (quote : Char) : Reader (List Char) :=
  (do
    Reader.char quote
    Reader.char quote
    tripled quote
    return [quote, quote]) <|>
  (do
    Reader.char quote
    tripled quote
    return [quote]) <|>
  (do
    tripled quote
    return [])

/-- Pieces of text between tripled quotes. A line feed that comes first is left out, and one with
a carriage return counts as a line feed alone. -/
def manyLines (quote : Char) (content : Reader (List Char)) : Reader String := do
  tripled quote
  discard (Reader.maybe newline)
  let pieces ← Reader.many
    (content <|> (do newline; return ['\n']) <|> innerQuotes quote)
  let last ← closing quote
  return String.ofList (pieces.flatten ++ last)

def basicContent : Reader (List Char) :=
  Reader.takeSome isBasic <|> (do return [← escape])

def basicString : Reader String := oneLine '\x22' basicContent

def literalString : Reader String := oneLine '\x27' (Reader.takeSome isLiteral)

def string : Reader String :=
  manyLines '\x22' ((do lineContinuation; return []) <|> basicContent) <|> basicString <|>
    manyLines '\x27' (Reader.takeSome isLiteral) <|> literalString

end TruthLint.Toml
