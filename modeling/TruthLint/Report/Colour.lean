import TruthLint.Diagnostic

/-! Coloured text for terminals: a piece of text between an escape sequence that turns its style on
and one that turns all styles off. -/

namespace TruthLint.Report

inductive Colour where
  | red | green | yellow | cyan
deriving DecidableEq, Repr

namespace Colour

/-- The number that selects the colour in an escape sequence. -/
def code : Colour → String
  | red => "31"
  | green => "32"
  | yellow => "33"
  | cyan => "36"

def ofSeverity : Severity → Colour
  | .error => red
  | .warning => yellow
  | .style => cyan

end Colour

/-- Text between the escape sequences of a style. An empty text is left alone. -/
def styled (codes s : String) : String :=
  if s.isEmpty then s else s!"\x1b[{codes}m{s}\x1b[0m"

/-- What a report does to stress a piece of text. -/
structure Palette where
  plain : Colour → String → String
  bold : Colour → String → String
  strong : String → String

namespace Palette

def colourless : Palette := ⟨fun _ s => s, fun _ s => s, id⟩

def coloured : Palette where
  plain c := styled c.code
  bold c := styled ("1;" ++ c.code)
  strong := styled "1"

def ofBool (inColour : Bool) : Palette := if inColour then coloured else colourless

end Palette

end TruthLint.Report
