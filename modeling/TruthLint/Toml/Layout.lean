import TruthLint.Text.Reader

/-! Blanks, comments and line ends of TOML texts. -/

namespace TruthLint.Toml

open Text (Reader)

/-- The characters that may stand in comments and, but for a few, in strings: no control
characters other than the tab. -/
def isPrintable (c : Char) : Bool :=
  c == '\t' || (0x20 ≤ c.toNat && c.toNat ≤ 0x7e) || 0x80 ≤ c.toNat

def blanks : Reader Unit := discard (Reader.takeWhile fun c => c == ' ' || c == '\t')

def newline : Reader Unit := Reader.piece "\n" <|> Reader.piece "\r\n"

def comment : Reader Unit := do
  Reader.char '#'
  discard (Reader.takeWhile isPrintable)

/-- Blanks and a comment, up to the end of the line or of the text. -/
def lineEnd : Reader Unit := do
  blanks
  discard (Reader.maybe comment)
  newline <|> Reader.atEnd

/-- Blanks, comments and line feeds. -/
def gap : Reader Unit := do
  blanks
  discard (Reader.many do
    discard (Reader.maybe comment)
    newline
    blanks)

end TruthLint.Toml
