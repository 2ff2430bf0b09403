import Treewalk.Number.Numeral

/-!
Rounding to the nearest number depends on nothing but the value of a ratio, and a number itself is
rounded to itself.
-/

namespace Treewalk

namespace Number

theorem nearestNat_mul (numerator denominator : Nat) {factor : Nat} (h : 0 < factor) :
    nearestNat (numerator * factor) (denominator * factor) = nearestNat numerator denominator := by
  have hquotient : numerator * factor / (denominator * factor) = numerator / denominator :=
    Nat.mul_div_mul_right _ _ h
  have hremainder : 2 * (numerator * factor % (denominator * factor)) =
      2 * (numerator % denominator) * factor := by
    rw [Nat.mul_mod_mul_right, Nat.mul_assoc]
  have hless : denominator * factor < 2 * (numerator % denominator) * factor ↔
      denominator < 2 * (numerator % denominator) := Nat.mul_lt_mul_right h
  have hequal : (2 * (numerator % denominator) * factor == denominator * factor) =
      (2 * (numerator % denominator) == denominator) := by
    rw [Bool.eq_iff_iff, beq_iff_eq, beq_iff_eq, Nat.mul_left_inj (Nat.ne_of_gt h)]
  simp only [nearestNat, hquotient, hremainder, hless, hequal]

theorem nearestNat_one (value : Nat) : nearestNat value 1 = value := by
  simp [nearestNat, Nat.mod_one]

theorem nearestMagnitude_le (numerator denominator : Nat) :
    nearestMagnitude numerator denominator ≤ infiniteMagnitude := by
  rw [nearestMagnitude]
  exact Nat.min_le_left _ _

/-- Equal ratios are rounded to the same number. -/
theorem nearestMagnitude_mul (numerator denominator : Nat) {factor : Nat} (h : 0 < factor) :
    nearestMagnitude (numerator * factor) (denominator * factor) =
      nearestMagnitude numerator denominator := by
  simp only [nearestMagnitude, Nat.mul_div_mul_right _ _ h, Nat.mul_right_comm denominator factor,
    nearestNat_mul _ _ h]

/-- A number of quanta that is that of a number is rounded to this number. -/
theorem nearestMagnitude_quantaOf {magnitude : Nat} (h : magnitude < infiniteMagnitude) :
    nearestMagnitude (quantaOf magnitude) 1 = magnitude := by
  have hspacing : spacing magnitude = magnitude / 2 ^ 52 - 1 := rfl
  generalize hexponent : spacing magnitude = exponent at hspacing
  -- the digits of the number, with their leading one if the number is normal
  obtain ⟨digits, hdigits⟩ : ∃ digits, digits = magnitude - exponent * 2 ^ 52 := ⟨_, rfl⟩
  have hmagnitude : exponent * 2 ^ 52 + digits = magnitude := by omega
  have hbelow : digits < 2 ^ 53 := by omega
  have habove : exponent ≠ 0 → 2 ^ 52 ≤ digits := by omega
  have hquanta : quantaOf magnitude = digits * 2 ^ exponent := by
    rw [quantaOf, hexponent, hdigits]
    rfl
  have hlog : (digits * 2 ^ exponent).log2 - 52 = exponent := by
    by_cases hzero : exponent = 0
    · rw [hzero, Nat.pow_zero, Nat.mul_one]
      by_cases hdigits' : digits = 0
      · rw [hdigits', Nat.log2_zero]
      · have hlt := (Nat.log2_lt hdigits').mpr hbelow
        omega
    · have hpositive : digits * 2 ^ exponent ≠ 0 :=
        Nat.mul_ne_zero (by have := habove hzero; omega) (Nat.ne_of_gt (Nat.two_pow_pos exponent))
      have hlog2 : (digits * 2 ^ exponent).log2 = 52 + exponent := by
        rw [Nat.log2_eq_iff hpositive, Nat.add_right_comm, Nat.pow_add, Nat.pow_add]
        exact ⟨Nat.mul_le_mul_right _ (habove hzero),
          Nat.mul_lt_mul_of_pos_right hbelow (Nat.two_pow_pos exponent)⟩
      omega
  rw [nearestMagnitude, hquanta, Nat.div_one, hlog, Nat.one_mul]
  have hpow : 0 < 2 ^ exponent := Nat.two_pow_pos exponent
  have hround := nearestNat_mul digits 1 hpow
  rw [Nat.one_mul, nearestNat_one] at hround
  change min infiniteMagnitude
    (exponent * 2 ^ 52 + nearestNat (digits * 2 ^ exponent) (2 ^ exponent)) = _
  rw [hround, hmagnitude, Nat.min_eq_right (Nat.le_of_lt h)]

end Number

end Treewalk
