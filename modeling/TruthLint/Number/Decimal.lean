import TruthLint.Number.Binary

/-! Decimal notation with an optional point and exponent, read as a fraction. -/

namespace TruthLint.Number

/-- The value of an ASCII decimal digit. -/
def decimalDigit? (c : Char) : Option Nat :=
  if '0' ≤ c ∧ c ≤ '9' then some (c.toNat - '0'.toNat) else none

def isDecimalDigit (c : Char) : Bool := (decimalDigit? c).isSome

/-- The number that digits denote, the most significant first; other characters count zero. -/
def ofDecimalDigits (digits : List Char) : Nat :=
  digits.foldl (fun n c => 10 * n + (decimalDigit? c).getD 0) 0

/-- The number `digits * 10 ^ exponent`, negated if `negative`. -/
structure Decimal where
  negative : Bool
  digits : Nat
  exponent : Int
deriving DecidableEq, Repr

namespace Decimal

/-- Splits off a sign; the second part says whether it is a minus. -/
def sign : List Char → Bool × List Char
  | '-' :: cs => (true, cs)
  | '+' :: cs => (false, cs)
  | cs => (false, cs)

/-- The exponent at the end of a number: nothing, or `e`, a sign and at least one digit. -/
def exponent? : List Char → Option Int
  | [] => some 0
  | 'e' :: cs =>
    let (negative, digits) := sign cs
    if digits.isEmpty || !digits.all isDecimalDigit then none
    else
      let n : Int := ofDecimalDigits digits
      some (if negative then -n else n)
  | _ => none

/-- Reads a sign, digits with at most one point among them, and an exponent. At least one digit
stands before the exponent. -/
def parse? (cs : List Char) : Option Decimal :=
  let (negative, cs) := sign cs
  let whole := cs.takeWhile isDecimalDigit
  let rest := cs.dropWhile isDecimalDigit
  let (fraction, rest) := match rest with
    | '.' :: rest => (rest.takeWhile isDecimalDigit, rest.dropWhile isDecimalDigit)
    | _ => ([], rest)
  let digits := whole ++ fraction
  if digits.isEmpty then none
  else (exponent? rest).map fun exponent =>
    ⟨negative, ofDecimalDigits digits, exponent - fraction.length⟩

/-- The magnitude rounded to binary floating point, if the result is finite. The powers of ten
are only computed where the exponent alone does not decide: a number below `10 ^ -330` rounds to
zero, and one of at least `10 ^ 310` has no finite value. -/
def magnitude? (x : Decimal) : Option Dyadic :=
  let width : Int := (Nat.toDigits 10 x.digits).length
  if x.digits = 0 ∨ x.exponent + width < -330 then some ⟨0, 0⟩
  else if 310 < x.exponent + width then none
  else
    let value :=
      if 0 ≤ x.exponent then Dyadic.nearest (x.digits * Nat.pow 10 x.exponent.toNat) 1
      else Dyadic.nearest x.digits (Nat.pow 10 (-x.exponent).toNat)
    if value.significand.log2 + value.exponent < 1024 then some value else none

end Decimal

end TruthLint.Number
