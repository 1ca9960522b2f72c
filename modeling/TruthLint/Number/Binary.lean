/-! Rounding of fractions to binary floating point with 53 significant bits and exponents from
-1074 on, the nearest value and on a tie the one with the even significand. -/

namespace TruthLint.Number

/-- The number `significand * 2 ^ exponent`. -/
structure Dyadic where
  significand : Nat
  exponent : Int
deriving DecidableEq, Repr

/-- The whole number nearest to `n / d`; a tie goes to the even neighbour. -/
def roundHalfEven (n d : Nat) : Nat :=
  let low := n / d
  let twice := 2 * (n % d)
  if twice < d then low else if d < twice then low + 1 else low + low % 2

/-- The greatest `k` with `2 ^ k ≤ n / d`, for positive `n` and `d`. -/
def floorLog (n d : Nat) : Int :=
  let guess : Int := n.log2 - d.log2
  let reached :=
    if 0 ≤ guess then d * Nat.pow 2 guess.toNat ≤ n else d ≤ n * Nat.pow 2 (-guess).toNat
  if reached then guess else guess - 1

namespace Dyadic

/-- The floating point value nearest to `n / d`, with no bound on large exponents. -/
def nearest (n d : Nat) : Dyadic :=
  if n = 0 then ⟨0, 0⟩
  else
    let exponent := max (-1074) (floorLog n d - 52)
    let significand :=
      if 0 ≤ exponent then roundHalfEven n (d * Nat.pow 2 exponent.toNat)
      else roundHalfEven (n * Nat.pow 2 (-exponent).toNat) d
    ⟨significand, exponent⟩

/-- The value as a whole number, if it is one. -/
def toNat? (x : Dyadic) : Option Nat :=
  if 0 ≤ x.exponent then some (x.significand * Nat.pow 2 x.exponent.toNat)
  else
    let unit := Nat.pow 2 (-x.exponent).toNat
    if x.significand % unit = 0 then some (x.significand / unit) else none

end Dyadic

end TruthLint.Number
