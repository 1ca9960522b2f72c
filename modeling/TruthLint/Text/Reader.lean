import TruthLint.Text.Search

/-! Readers: functions that take a value from the front of a text, or fail. A choice between two
readers takes back what the first one read before it failed. -/

namespace TruthLint.Text

abbrev Reader := StateT (List Char) Option

namespace Reader

def satisfying (p : Char → Bool) : Reader Char
  | [] => none
  | c :: cs => if p c then some (c, cs) else none

def char (c : Char) : Reader Unit := discard (satisfying (· == c))

/-- A fixed piece of text. -/
def piece (s : String) : Reader Unit := fun cs => (afterLead? s.toList cs).map ((), ·)

def takeWhile (p : Char → Bool) : Reader (List Char) := fun cs =>
  some (cs.takeWhile p, cs.dropWhile p)

/-- The longest front of characters that satisfy `p`, and at least one of them. -/
def takeSome (p : Char → Bool) : Reader (List Char) := do
  let c ← satisfying p
  let cs ← takeWhile p
  return c :: cs

/-- Exactly `n` characters that satisfy `p`. -/
def exactly (n : Nat) (p : Char → Bool) : Reader (List Char) :=
  (List.replicate n ()).mapM fun _ => satisfying p

/-- Succeeds, without reading it, if another character than `c` comes next. -/
def nextIsNot (c : Char) : Reader Unit
  | [] => none
  | d :: ds => if c = d then none else some ((), d :: ds)

def atEnd : Reader Unit
  | [] => some ((), [])
  | _ => none

def maybe {α : Type} (r : Reader α) : Reader (Option α) := (some <$> r) <|> pure none

/-- What `r` reads as often as it succeeds and makes progress, and the text after that. -/
def manyFrom {α : Type} (r : Reader α) (cs : List Char) : List α × List Char :=
  match r cs with
  | none => ([], cs)
  | some (a, rest) =>
    if rest.length < cs.length then
      let (more, rest) := manyFrom r rest
      (a :: more, rest)
    else ([], cs)
termination_by cs.length

def many {α : Type} (r : Reader α) : Reader (List α) := fun cs => some (manyFrom r cs)

/-- One or more values with a separator between them. -/
def separated {α : Type} (r : Reader α) (separator : Char) : Reader (List α) := do
  let a ← r
  let rest ← many do
    char separator
    r
  return a :: rest

end Reader

end TruthLint.Text
