import TruthLint.Number.Decimal
import TruthLint.Text.Search

/-! Values of numeric literals. Only values that are whole and fit in 64 bits are known. -/

namespace TruthLint.Number

/-- One more than the largest value that is known. -/
def wordBound : Nat := Nat.pow 2 64

/-- The value of a digit in a radix of at most sixteen, in lower case. -/
def digit? (radix : Nat) (c : Char) : Option Nat :=
  let value :=
    if '0' ≤ c ∧ c ≤ '9' then some (c.toNat - '0'.toNat)
    else if 'a' ≤ c ∧ c ≤ 'f' then some (c.toNat - 'a'.toNat + 10)
    else none
  value.filter (· < radix)

def ofDigits? (radix : Nat) (digits : List Char) : Option Nat :=
  digits.foldlM (fun n c => (digit? radix c).map (radix * n + ·)) 0

/-- A whole number below the bound; a plus sign in front is allowed. -/
def word? (radix : Nat) (cs : List Char) : Option Nat :=
  let digits := match cs with
    | '+' :: digits => digits
    | digits => digits
  if digits.isEmpty then none else (ofDigits? radix digits).filter (· < wordBound)

/-- Digits and an integer suffix. Only octal digits may be missing, since a lone zero leads
them. -/
def integer? (radix : Nat) (cs : List Char) : Option Nat :=
  let digits := Text.dropEndWhile (fun c => c == 'u' || c == 'l' || c == 'z') cs
  if digits.isEmpty then (if radix = 8 then some 0 else none) else word? radix digits

/-- A floating point literal whose rounded value is whole, not negative and at most the bound,
where the largest known value stands for the bound itself. -/
def wholeFloat? (cs : List Char) : Option Nat := do
  let decimal ← Decimal.parse? (Text.dropEndWhile (fun c => c == 'f' || c == 'l') cs)
  let magnitude ← decimal.magnitude?
  let value ← magnitude.toNat?
  if (decimal.negative && value != 0) || wordBound < value then none
  else some (min value (wordBound - 1))

/-- The value of a literal in lower case and without digit separators. -/
def ofLowercase? : List Char → Option Nat
  | '0' :: 'x' :: digits =>
    if digits.contains '.' || digits.contains 'p' then none else integer? 16 digits
  | '0' :: 'b' :: digits => integer? 2 digits
  | cs =>
    if cs.contains '.' || cs.contains 'e' then wholeFloat? cs
    else match cs with
      | '0' :: c :: digits => integer? 8 (c :: digits)
      | cs => integer? 10 cs

/-- The value of a numeric literal that denotes a whole number of at most 64 bits. -/
def literal? (text : String) : Option Nat :=
  ofLowercase? ((text.toList.filter (· != '\x27')).map Char.toLower)

end TruthLint.Number
