import TruthLint.Number.Decimal
import TruthLint.Toml.Quoted

/-! Numbers, dates and times of TOML texts. Settings hold none of them, so that only their form and
their range are looked at. -/

namespace TruthLint.Toml

open Text (Reader)
open Number (isDecimalDigit ofDecimalDigits)

/-- The digits that follow a first one; single underscores between digits separate them. -/
def moreDigits (isDigit : Char → Bool) : List Char → List Char × List Char
  | '_' :: d :: cs =>
    if isDigit d then
      let (digits, rest) := moreDigits isDigit cs
      (d :: digits, rest)
    else ([], '_' :: d :: cs)
  | d :: cs =>
    if isDigit d then
      let (digits, rest) := moreDigits isDigit cs
      (d :: digits, rest)
    else ([], d :: cs)
  | [] => ([], [])

def digits (isDigit : Char → Bool) : Reader (List Char) := do
  let first ← Reader.satisfying isDigit
  let rest ← fun cs => some (moreDigits isDigit cs)
  return first :: rest

/-- A sign in front of a number; the result says whether it is a minus. -/
def sign : Reader Bool := do
  return (← Reader.maybe (Reader.satisfying fun c => c == '+' || c == '-')) == some '-'

/-- Decimal digits with no zero in front of others. -/
def wholeDigits : Reader (List Char) :=
  (do Reader.char '0'; return ['0']) <|> digits isDecimalDigit

/-- One more than the largest integer of 64 bits with a sign. -/
def signedBound : Nat := Nat.pow 2 63

/-- Integers have to fit in 64 bits with a sign. -/
def decimalInteger : Reader Unit := do
  let negative ← sign
  let n := ofDecimalDigits (← wholeDigits)
  guard (n < signedBound + if negative then 1 else 0)

/-- An integer after a mark for its radix. -/
def radixInteger (mark : String) (radix : Nat) : Reader Unit := do
  Reader.piece mark
  let ds ← digits fun c => (hexDigit? c).any (· < radix)
  guard (ds.foldl (fun n c => radix * n + (hexDigit? c).getD 0) 0 < signedBound)

def integer : Reader Unit :=
  radixInteger "0x" 16 <|> radixInteger "0o" 8 <|> radixInteger "0b" 2 <|> decimalInteger

def fraction : Reader (List Char) := do
  Reader.char '.'
  digits isDecimalDigit

def exponent : Reader Int := do
  discard (Reader.satisfying fun c => c == 'e' || c == 'E')
  let negative ← sign
  let n : Int := ofDecimalDigits (← digits isDecimalDigit)
  return if negative then -n else n

/-- The part of a float after the whole digits: a fraction, an exponent or both. -/
def floatTail : Reader (List Char × Int) :=
  (do return ([], ← exponent)) <|>
  (do
    let places ← fraction
    return (places, (← Reader.maybe exponent).getD 0))

/-- Floats that are too large are refused, unless they are negative. -/
def float : Reader Unit := do
  let negative ← sign
  let finite : Reader Unit := do
    let whole ← wholeDigits
    let (places, exponent) ← floatTail
    let value : Number.Decimal :=
      ⟨negative, ofDecimalDigits (whole ++ places), exponent - places.length⟩
    guard (negative || value.magnitude?.isSome)
  finite <|> Reader.piece "inf" <|> Reader.piece "nan"

/-- A number of a fixed width between two bounds. -/
def bounded (width low high : Nat) : Reader Nat := do
  let n := ofDecimalDigits (← Reader.exactly width isDecimalDigit)
  if low ≤ n && n ≤ high then return n else failure

def isLeap (year : Nat) : Bool := year % 4 == 0 && (year % 100 != 0 || year % 400 == 0)

def daysIn (year month : Nat) : Nat :=
  if month = 2 then (if isLeap year then 29 else 28)
  else if month = 4 ∨ month = 6 ∨ month = 9 ∨ month = 11 then 30
  else 31

def date : Reader Unit := do
  let year ← bounded 4 0 9999
  Reader.char '-'
  let month ← bounded 2 1 12
  Reader.char '-'
  discard (bounded 2 1 (daysIn year month))

/-- A time of day; a leap second may be its last. -/
def time : Reader Unit := do
  discard (bounded 2 0 23)
  Reader.char ':'
  discard (bounded 2 0 59)
  Reader.char ':'
  discard (bounded 2 0 60)
  discard (Reader.maybe do
    Reader.char '.'
    Reader.takeSome isDecimalDigit)

/-- How far a time is off universal time. -/
def offset : Reader Unit :=
  discard (Reader.satisfying fun c => c == 'Z' || c == 'z') <|>
  (do
    discard (Reader.satisfying fun c => c == '+' || c == '-')
    discard (bounded 2 0 23)
    Reader.char ':'
    discard (bounded 2 0 59))

/-- A date, a time or both; only both together may have an offset. -/
def moment : Reader Unit :=
  (do
    date
    discard (Reader.maybe do
      discard (Reader.satisfying fun c => c == 'T' || c == 't' || c == ' ')
      time
      Reader.maybe offset)) <|>
  time

end TruthLint.Toml
