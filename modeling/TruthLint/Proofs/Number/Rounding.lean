import Mathlib.Data.Nat.Log
import Mathlib.Tactic.Ring
import TruthLint.Number.Binary

/-! Rounding of whole numbers to 53 binary digits. A number of at most 53 digits is kept. A greater
one is rounded to a multiple of a power of two, which depends on its length alone. -/

namespace TruthLint.Number

/-- Rounding a quotient does not depend on how the fraction is written. -/
theorem roundHalfEven_mul_right (n d : Nat) {c : Nat} (hc : 0 < c) :
    roundHalfEven (n * c) (d * c) = roundHalfEven n d := by
  have hTwice : 2 * (n % d * c) = 2 * (n % d) * c := by ring
  simp only [roundHalfEven, Nat.mul_div_mul_right _ _ hc, Nat.mul_mod_mul_right, hTwice,
    Nat.mul_lt_mul_right hc]

theorem roundHalfEven_one (n : Nat) : roundHalfEven n 1 = n := by
  simp [roundHalfEven, Nat.mod_one]

/-- Rounding never goes below the whole part of a quotient. -/
theorem div_le_roundHalfEven (n d : Nat) : n / d ≤ roundHalfEven n d := by
  dsimp only [roundHalfEven]
  split_ifs <;> omega

theorem roundHalfEven_le (n d : Nat) : roundHalfEven n d ≤ n / d + 1 := by
  dsimp only [roundHalfEven]
  split_ifs <;> omega

/-- The leading binary digit of a quotient is found where that of a whole quotient is. -/
theorem floorLog_mul {v d : Nat} (hv : 0 < v) (hd : 0 < d) : floorLog (v * d) d = v.log2 := by
  have hProduct : v * d ≠ 0 := Nat.mul_ne_zero hv.ne' hd.ne'
  have hLow : 2 ^ (v.log2 + d.log2) ≤ v * d := by
    rw [Nat.pow_add]
    exact Nat.mul_le_mul (Nat.log2_self_le hv.ne') (Nat.log2_self_le hd.ne')
  have hHigh : v * d < 2 ^ (v.log2 + d.log2 + 2) := by
    have hPow : 2 ^ (v.log2 + d.log2 + 2) = 2 ^ (v.log2 + 1) * 2 ^ (d.log2 + 1) := by ring
    rw [hPow]
    exact Nat.mul_lt_mul'' Nat.lt_log2_self Nat.lt_log2_self
  have hAtLeast : v.log2 + d.log2 ≤ (v * d).log2 := (Nat.le_log2 hProduct).mpr hLow
  have hBelow : (v * d).log2 < v.log2 + d.log2 + 2 := (Nat.log2_lt hProduct).mpr hHigh
  have hReached (k : Nat) : d * 2 ^ k ≤ v * d ↔ k ≤ v.log2 := by
    rw [Nat.mul_comm v d, Nat.mul_le_mul_left_iff hd, Nat.le_log2 hv.ne']
  obtain ⟨guess, hGuess⟩ := Nat.exists_eq_add_of_le (Nat.le_trans (Nat.le_add_left _ _) hAtLeast)
  have hCast : ((v * d).log2 : Int) - d.log2 = guess := by omega
  simp only [floorLog, hCast, Int.natCast_nonneg, if_true, Int.toNat_natCast, Nat.pow_eq, hReached]
  split_ifs <;> omega

namespace Dyadic

variable {v d : Nat}

/-- A number with at least 53 binary digits keeps 53 of them. -/
theorem nearest_mul_of_le (h : 52 ≤ v.log2) (hd : 0 < d) :
    nearest (v * d) d = ⟨roundHalfEven v (2 ^ (v.log2 - 52)), (v.log2 - 52 : Nat)⟩ := by
  have hv : 0 < v := Nat.pos_of_ne_zero fun hZero => by
    rw [hZero] at h
    exact absurd h (by decide)
  have hExponent : max (-1074) ((v.log2 : Int) - 52) = (v.log2 - 52 : Nat) := by omega
  simp only [nearest, Nat.mul_ne_zero hv.ne' hd.ne', if_false, floorLog_mul hv hd, hExponent,
    Int.natCast_nonneg, if_true, Int.toNat_natCast, Nat.pow_eq]
  rw [Nat.mul_comm d, roundHalfEven_mul_right _ _ hd]

/-- A shorter number is filled up with zeros. -/
theorem nearest_mul_of_lt (hv : 0 < v) (h : v.log2 < 52) (hd : 0 < d) :
    nearest (v * d) d = ⟨v * 2 ^ (52 - v.log2), -(52 - v.log2 : Nat)⟩ := by
  have hExponent : max (-1074) ((v.log2 : Int) - 52) = -(52 - v.log2 : Nat) := by omega
  have hNegative : ¬(0 : Int) ≤ -(52 - v.log2 : Nat) := by omega
  have hProduct : v * d * 2 ^ (52 - v.log2) = v * 2 ^ (52 - v.log2) * d := by ring
  have hExact : roundHalfEven (v * 2 ^ (52 - v.log2) * d) d = v * 2 ^ (52 - v.log2) := by
    have hScaled := roundHalfEven_mul_right (v * 2 ^ (52 - v.log2)) 1 hd
    rwa [Nat.one_mul, roundHalfEven_one] at hScaled
  simp only [nearest, Nat.mul_ne_zero hv.ne' hd.ne', if_false, floorLog_mul hv hd, hExponent,
    hNegative, Int.neg_neg, Int.toNat_natCast, Nat.pow_eq, hProduct, hExact]

/-- Rounding makes a number at most one binary digit longer. -/
theorem log2_nearest_le (hv : 0 < v) (hd : 0 < d) :
    ((nearest (v * d) d).significand.log2 : Int) + (nearest (v * d) d).exponent ≤ v.log2 + 1 := by
  have hBelow : v < 2 ^ (v.log2 + 1) := Nat.lt_log2_self
  rcases Nat.lt_or_ge v.log2 52 with hShort | hLong
  · rw [nearest_mul_of_lt hv hShort hd]
    have hSignificand : v * 2 ^ (52 - v.log2) < 2 ^ 53 := by
      have hPow : 2 ^ (v.log2 + 1) * 2 ^ (52 - v.log2) = 2 ^ 53 := by
        rw [← Nat.pow_add, show v.log2 + 1 + (52 - v.log2) = 53 by omega]
      exact hPow ▸ Nat.mul_lt_mul_of_pos_right hBelow (Nat.two_pow_pos _)
    have hLog := (Nat.log2_lt (Nat.mul_pos hv (Nat.two_pow_pos _)).ne').mpr hSignificand
    dsimp only
    omega
  · rw [nearest_mul_of_le hLong hd]
    have hQuotient : v / 2 ^ (v.log2 - 52) < 2 ^ 53 := by
      rw [Nat.div_lt_iff_lt_mul (Nat.two_pow_pos _), ← Nat.pow_add]
      exact hBelow.trans_eq (by rw [show 53 + (v.log2 - 52) = v.log2 + 1 by omega])
    have hLog : (roundHalfEven v (2 ^ (v.log2 - 52))).log2 < 54 := by
      have hLe := roundHalfEven_le v (2 ^ (v.log2 - 52))
      rcases Nat.eq_zero_or_pos (roundHalfEven v (2 ^ (v.log2 - 52))) with hZero | hPos
      · rw [hZero]
        decide
      · exact (Nat.log2_lt hPos.ne').mpr (by omega)
    dsimp only
    omega

theorem toNat?_natCast (significand exponent : Nat) :
    toNat? ⟨significand, exponent⟩ = some (significand * 2 ^ exponent) := by
  simp [toNat?]

theorem toNat?_neg_natCast (v zeros : Nat) :
    toNat? ⟨v * 2 ^ zeros, -(zeros : Nat)⟩ = some v := by
  rcases zeros.eq_zero_or_pos with rfl | hPos
  · simpa using toNat?_natCast v 0
  · have hNegative : ¬(0 : Int) ≤ -(zeros : Nat) := by omega
    simp only [toNat?, hNegative, if_false, Int.neg_neg, Int.toNat_natCast, Nat.pow_eq,
      Nat.mul_mod_left, if_true, Nat.mul_div_cancel v (Nat.two_pow_pos zeros)]

/-- A whole number below `2 ^ 53` is a floating point value. -/
theorem toNat?_nearest (hv : 0 < v) (h : v < 2 ^ 53) (hd : 0 < d) :
    (nearest (v * d) d).toNat? = some v := by
  rcases Nat.lt_or_ge v.log2 52 with hShort | hLong
  · rw [nearest_mul_of_lt hv hShort hd, toNat?_neg_natCast]
  · have hLog : v.log2 < 53 := (Nat.log2_lt hv.ne').mpr h
    obtain hEq : v.log2 - 52 = 0 := by omega
    rw [nearest_mul_of_le hLong hd, toNat?_natCast, hEq, Nat.pow_zero, roundHalfEven_one,
      Nat.mul_one]

/-- A number that is not far above `2 ^ 64` is rounded down to it. A greater one stays above. -/
theorem toNat?_nearest_of_le (h : 2 ^ 64 ≤ v) (hd : 0 < d) :
    ∃ rounded, (nearest (v * d) d).toNat? = some rounded ∧
      if v ≤ 2 ^ 64 + 2 ^ 11 then rounded = 2 ^ 64 else 2 ^ 64 < rounded := by
  have hv : v ≠ 0 := by omega
  have hLog : 64 ≤ v.log2 := (Nat.le_log2 hv).mpr h
  rw [nearest_mul_of_le (by omega) hd, toNat?_natCast]
  refine ⟨_, rfl, ?_⟩
  rcases hLog.eq_or_lt with hFirst | hLater
  · have hUnit : v.log2 - 52 = 12 := by omega
    have hBelow : v < 2 ^ 65 := (Nat.log2_lt hv).mp (by omega)
    rw [hUnit]
    dsimp only [roundHalfEven]
    split_ifs <;> omega
  · have hPow : 2 ^ 65 ≤ v := (Nat.le_log2 hv).mp hLater
    rw [if_neg (by omega)]
    have hLeading : 2 ^ 52 ≤ v / 2 ^ (v.log2 - 52) := by
      rw [Nat.le_div_iff_mul_le (Nat.two_pow_pos _), ← Nat.pow_add, Nat.add_sub_cancel' (by omega)]
      exact Nat.log2_self_le hv
    calc 2 ^ 64 < 2 ^ 52 * 2 ^ 13 := by decide
      _ ≤ roundHalfEven v (2 ^ (v.log2 - 52)) * 2 ^ (v.log2 - 52) :=
        Nat.mul_le_mul (Nat.le_trans hLeading (div_le_roundHalfEven _ _))
          (Nat.pow_le_pow_right (by decide) (by omega))

end Dyadic

end TruthLint.Number
