import Mathlib.Algebra.Order.Field.Power
import Mathlib.Data.Rat.Cast.Order
import Mathlib.Tactic.NormNum
import Mathlib.Tactic.Positivity
import TruthLint.Number.Decimal
import TruthLint.Proofs.Number.Rounding

/-! Decimal numbers whose value is whole. Numbers that are cut off by their length alone are too
small or too large to matter, and all others are rounded as the whole number that they denote. -/

namespace TruthLint.Number.Decimal

/-- The exact value, without the sign. -/
def value (x : Decimal) : ℚ := x.digits * 10 ^ x.exponent

/-- How many decimal digits are written. -/
def width (x : Decimal) : Nat := (Nat.toDigits 10 x.digits).length

variable {x : Decimal} {v : Nat}

/-- The digits that are written bound the number that they make up. -/
theorem digits_lt (x : Decimal) : x.digits < 10 ^ x.width :=
  (Nat.length_toDigits_le_iff (by decide) Nat.length_toDigits_pos).mp (Nat.le_refl _)

/-- They bound it from below as well, as no zero is counted in front. -/
theorem le_digits (h : 0 < x.digits) : 10 ^ (x.width - 1) ≤ x.digits := by
  by_contra hLess
  rcases Nat.eq_zero_or_pos (x.width - 1) with hZero | hPos
  · rw [hZero] at hLess
    omega
  · have hShort : x.width ≤ x.width - 1 :=
      (Nat.length_toDigits_le_iff (by decide) hPos).mpr (Nat.lt_of_not_le hLess)
    omega

theorem digits_pos (hv : 0 < v) (h : x.value = v) : 0 < x.digits := by
  rcases Nat.eq_zero_or_pos x.digits with hZero | hPos
  · rw [value, hZero, Nat.cast_zero, zero_mul, eq_comm, Nat.cast_eq_zero] at h
    omega
  · exact hPos

/-- The leading digit of a whole number does not stand behind the point. -/
theorem exponent_add_width_pos (hv : 0 < v) (h : x.value = v) : 0 < x.exponent + x.width := by
  have hDigits : (x.digits : ℚ) < 10 ^ x.width := by exact_mod_cast x.digits_lt
  have hLarge : (1 : ℚ) < 10 ^ (x.exponent + x.width) := calc
    (1 : ℚ) ≤ v := by exact_mod_cast hv
    _ = x.digits * 10 ^ x.exponent := h.symm
    _ < 10 ^ x.width * 10 ^ x.exponent := by gcongr
    _ = 10 ^ (x.exponent + x.width) := by
      rw [add_comm, zpow_add₀ (by norm_num), zpow_natCast]
  exact (one_lt_zpow_iff_right₀ (by norm_num)).mp hLarge

/-- A number with more than 310 digits before the point. -/
theorem le_of_exponent_add_width (hv : 0 < v) (h : x.value = v)
    (hLong : 310 < x.exponent + x.width) : 10 ^ 310 ≤ v := by
  have hDigits : (10 : ℚ) ^ (x.width - 1) ≤ x.digits := by
    exact_mod_cast le_digits (digits_pos hv h)
  have hWidth : 0 < x.width := Nat.length_toDigits_pos
  have hLarge : (10 : ℚ) ^ (310 : ℤ) ≤ v := calc
    (10 : ℚ) ^ (310 : ℤ) ≤ 10 ^ (((x.width - 1 : Nat) : ℤ) + x.exponent) :=
      zpow_le_zpow_right₀ (by norm_num) (by omega)
    _ = 10 ^ (x.width - 1) * 10 ^ x.exponent := by rw [zpow_add₀ (by norm_num), zpow_natCast]
    _ ≤ x.digits * 10 ^ x.exponent := by gcongr
    _ = v := h
  exact_mod_cast hLarge

/-- The fraction that is rounded is the whole number over some denominator. -/
theorem exists_nearest (h : x.value = v) : ∃ d, 0 < d ∧
    (if 0 ≤ x.exponent then Dyadic.nearest (x.digits * Nat.pow 10 x.exponent.toNat) 1
      else Dyadic.nearest x.digits (Nat.pow 10 (-x.exponent).toNat)) =
      Dyadic.nearest (v * d) d := by
  rcases le_or_gt 0 x.exponent with hUp | hDown
  · refine ⟨1, by decide, ?_⟩
    obtain ⟨k, hk⟩ := Int.eq_ofNat_of_zero_le hUp
    have hWhole : x.digits * 10 ^ k = v := by
      rw [value, hk, zpow_natCast] at h
      exact_mod_cast h
    rw [if_pos hUp, hk, Int.toNat_natCast, Nat.pow_eq, hWhole, Nat.mul_one]
  · obtain ⟨k, hk⟩ := Int.eq_ofNat_of_zero_le (a := -x.exponent) (by omega)
    have hExponent : x.exponent = -(k : ℤ) := by omega
    refine ⟨10 ^ k, by positivity, ?_⟩
    have hWhole : x.digits = v * 10 ^ k := by
      rw [value, hExponent, zpow_neg, zpow_natCast, ← div_eq_mul_inv,
        div_eq_iff (by positivity)] at h
      exact_mod_cast h
    rw [if_neg (by omega), hk, Int.toNat_natCast, Nat.pow_eq, hWhole]

/-- What is left of the shortcuts for a positive whole number: it is rounded, unless it is too
large to be finite. -/
theorem magnitude?_eq (hv : 0 < v) (h : x.value = v) : ∃ d, 0 < d ∧
    x.magnitude? =
      if 310 < x.exponent + x.width then none
      else if ((Dyadic.nearest (v * d) d).significand.log2 : Int) +
          (Dyadic.nearest (v * d) d).exponent < 1024 then some (Dyadic.nearest (v * d) d)
      else none := by
  obtain ⟨d, hd, hNearest⟩ := exists_nearest h
  have hDigits := digits_pos hv h
  have hWidth := exponent_add_width_pos hv h
  refine ⟨d, hd, ?_⟩
  rw [magnitude?, if_neg]
  · dsimp only
    rw [hNearest]
    rfl
  · rw [width] at hWidth
    omega

/-- The whole number that a magnitude rounds to. -/
def rounded? (x : Decimal) : Option Nat := x.magnitude?.bind Dyadic.toNat?

/-- A whole number below 2 to the 53 is rounded to itself, since a significand has room for it. -/
theorem rounded?_of_lt (h : x.value = v) (hSmall : v < 2 ^ 53) : x.rounded? = some v := by
  rcases Nat.eq_zero_or_pos v with rfl | hv
  · have hDigits : x.digits = 0 := by
      have hPow : (10 : ℚ) ^ x.exponent ≠ 0 := by positivity
      rw [value, Nat.cast_zero, mul_eq_zero, or_iff_left hPow] at h
      exact_mod_cast h
    rw [rounded?, magnitude?, if_pos (.inl hDigits)]
    rfl
  · obtain ⟨d, hd, hMagnitude⟩ := magnitude?_eq hv h
    have hLog : v.log2 < 53 := (Nat.log2_lt hv.ne').mpr hSmall
    have hFinite := Dyadic.log2_nearest_le hv hd
    have hShort : ¬310 < x.exponent + x.width := fun hLong => by
      have hLarge := le_of_exponent_add_width hv h hLong
      omega
    rw [rounded?, hMagnitude, if_neg hShort, if_pos (by omega), Option.bind_some,
      Dyadic.toNat?_nearest hv hSmall hd]

/-- At the bound of 64 bits a number rounds to the bound, and beyond it to something greater, if
the result is finite at all. -/
theorem rounded?_of_le (h : x.value = v) (hLarge : 2 ^ 64 ≤ v) :
    if v ≤ 2 ^ 64 + 2 ^ 11 then x.rounded? = some (2 ^ 64)
    else ∀ rounded, x.rounded? = some rounded → 2 ^ 64 < rounded := by
  have hv : 0 < v := by omega
  obtain ⟨d, hd, hMagnitude⟩ := magnitude?_eq hv h
  obtain ⟨rounded, hRounded, hBound⟩ := Dyadic.toNat?_nearest_of_le hLarge hd
  rw [rounded?, hMagnitude]
  split_ifs at hBound ⊢ with hNear hLong hFinite hLong hFinite
  · have hFar := le_of_exponent_add_width hv h hLong
    omega
  · rw [Option.bind_some, hRounded, hBound]
  · have hLog : v.log2 < 65 := (Nat.log2_lt hv.ne').mpr (by omega)
    have hLength := Dyadic.log2_nearest_le hv hd
    omega
  · simp
  · rw [Option.bind_some, hRounded]
    rintro _ ⟨rfl⟩
    exact hBound
  · simp

end TruthLint.Number.Decimal
