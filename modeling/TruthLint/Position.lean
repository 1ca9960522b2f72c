/-! Places in a source text. Lines and columns count from one, and a column counts the bytes of
the UTF-8 encoding. -/

namespace TruthLint

structure Position where
  line : Nat
  column : Nat
deriving DecidableEq, Repr

namespace Position

def start : Position := ⟨1, 1⟩

/-- The position just after a character. -/
def after (p : Position) (c : Char) : Position :=
  if c = '\n' then ⟨p.line + 1, 1⟩ else ⟨p.line, p.column + c.utf8Size⟩

/-- The position `offset` bytes after `p`; an offset within a character counts its bytes. -/
def advance (p : Position) : (offset : Nat) → List Char → Position
  | _, [] => p
  | offset, c :: cs =>
    if offset < c.utf8Size then ⟨p.line, p.column + offset⟩
    else advance (p.after c) (offset - c.utf8Size) cs

/-- The position of a byte offset in a text. -/
def ofOffset (text : List Char) (offset : Nat) : Position := start.advance offset text

end Position

namespace Text

/-- The characters from byte `offset` on, or nothing if the offset lies within a character or
past the end. -/
def dropBytes? : (offset : Nat) → List Char → Option (List Char)
  | 0, cs => some cs
  | _ + 1, [] => none
  | offset + 1, c :: cs =>
    if c.utf8Size ≤ offset + 1 then dropBytes? (offset + 1 - c.utf8Size) cs else none

/-- The characters that make up the first `count` bytes. -/
def takeBytes? : (count : Nat) → List Char → Option (List Char)
  | 0, _ => some []
  | _ + 1, [] => none
  | count + 1, c :: cs =>
    if c.utf8Size ≤ count + 1 then (takeBytes? (count + 1 - c.utf8Size) cs).map (c :: ·) else none

/-- The text between two byte offsets; empty if one of them does not fall between characters. -/
def slice (text : List Char) (first last : Nat) : String :=
  let piece := do
    let rest ← dropBytes? first text
    takeBytes? (last - first) rest
  String.ofList (piece.getD [])

end Text

end TruthLint
