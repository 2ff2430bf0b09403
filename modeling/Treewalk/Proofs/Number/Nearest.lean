import Mathlib
import Treewalk.Proofs.Number.Rounding

/-!
Rounding goes to the nearest number. Every number has a rational value, an infinite one that of the
power of two behind the largest finite number. Around a ratio there are two neighbours; the nearer
one is taken, and the even one if they are equally near.
-/

namespace Treewalk.Number

/-! Neighbours -/

/-- The quanta of a number by its digits, of which there are `2 ^ 53` if they carry. -/
theorem quantaOf_add {exponent digits : Nat} (hdigits : digits ≤ 2 ^ 53)
    (hnormal : exponent ≠ 0 → 2 ^ 52 ≤ digits) :
    quantaOf (exponent * 2 ^ 52 + digits) = digits * 2 ^ exponent := by
  have hspacing : spacing (exponent * 2 ^ 52 + digits) =
      (exponent * 2 ^ 52 + digits) / 2 ^ 52 - 1 := rfl
  change (exponent * 2 ^ 52 + digits - spacing _ * 2 ^ 52) * 2 ^ spacing _ = _
  by_cases hcarry : digits = 2 ^ 53
  · have hnext : spacing (exponent * 2 ^ 52 + digits) = exponent + 1 := by omega
    have hleft : exponent * 2 ^ 52 + digits - (exponent + 1) * 2 ^ 52 = 2 ^ 52 := by omega
    rw [hnext, hleft, hcarry, pow_succ]
    ring
  · have hsame : spacing (exponent * 2 ^ 52 + digits) = exponent := by omega
    rw [hsame, Nat.add_sub_cancel_left]

theorem exists_digits (magnitude : Nat) : ∃ exponent digits, digits < 2 ^ 53 ∧
    (exponent ≠ 0 → 2 ^ 52 ≤ digits) ∧ magnitude = exponent * 2 ^ 52 + digits := by
  have hspacing : spacing magnitude = magnitude / 2 ^ 52 - 1 := rfl
  exact ⟨spacing magnitude, magnitude - spacing magnitude * 2 ^ 52, by omega, by omega, by omega⟩

theorem quantaOf_strictMono : StrictMono quantaOf := by
  apply strictMono_nat_of_lt_succ
  intro magnitude
  obtain ⟨exponent, digits, hbelow, hnormal, rfl⟩ := exists_digits magnitude
  have hnext : exponent ≠ 0 → 2 ^ 52 ≤ digits + 1 := fun hne => Nat.le_succ_of_le (hnormal hne)
  rw [Nat.add_assoc, quantaOf_add hbelow hnext, quantaOf_add (Nat.le_of_lt hbelow) hnormal]
  exact Nat.mul_lt_mul_of_pos_right (Nat.lt_succ_self digits) (Nat.two_pow_pos exponent)

/-- The digits of a ratio of quanta before they are rounded. -/
theorem digits_of_ratio {numerator denominator exponent : Nat}
    (hexponent : exponent = (numerator / denominator).log2 - 52) :
    numerator / (denominator * 2 ^ exponent) < 2 ^ 53 ∧
      (exponent ≠ 0 → 2 ^ 52 ≤ numerator / (denominator * 2 ^ exponent)) := by
  rw [← Nat.div_div_eq_div_mul]
  generalize numerator / denominator = quanta at hexponent
  have hpow : 0 < 2 ^ exponent := Nat.two_pow_pos exponent
  rw [Nat.div_lt_iff_lt_mul hpow, Nat.le_div_iff_mul_le hpow, ← pow_add, ← pow_add]
  by_cases hzero : quanta = 0
  · rw [hzero, Nat.log2_zero] at hexponent
    exact ⟨hzero ▸ Nat.two_pow_pos _, fun hne => absurd hexponent hne⟩
  · constructor
    · exact (Nat.log2_lt hzero).mp (by omega)
    · intro hne
      have hlog : quanta.log2 = 52 + exponent := by omega
      exact hlog ▸ Nat.log2_self_le hzero

/-! Nearest -/

/-- The value of the numbers of a magnitude, without their sign. -/
def valueOf (magnitude : Nat) : ℚ :=
  quantaOf magnitude / unit

/-- The magnitude has the value that is nearest to another, and of two equally near ones it is the
even one. -/
structure Rounds (value : ℚ) (magnitude : Nat) : Prop where
  le_infinite : magnitude ≤ infiniteMagnitude
  nearest : ∀ other ≤ infiniteMagnitude, |value - valueOf magnitude| ≤ |value - valueOf other|
  even : ∀ other ≤ infiniteMagnitude, other ≠ magnitude →
    |value - valueOf magnitude| = |value - valueOf other| → magnitude % 2 = 0

theorem unit_pos : (0 : ℚ) < unit :=
  Nat.cast_pos.mpr (Nat.pow_pos (by decide) : 0 < Nat.pow 2 _)

theorem valueOf_strictMono : StrictMono valueOf := by
  intro left right hlt
  have hquanta : (quantaOf left : ℚ) < quantaOf right :=
    Nat.cast_lt.mpr (quantaOf_strictMono hlt)
  exact div_lt_div_of_pos_right hquanta unit_pos

theorem valueOf_zero : valueOf 0 = 0 := by
  have hquanta : quantaOf 0 = 0 := by simp [quantaOf]
  rw [valueOf, hquanta, Nat.cast_zero, zero_div]

theorem valueOf_nonneg (magnitude : Nat) : 0 ≤ valueOf magnitude :=
  valueOf_zero ▸ valueOf_strictMono.monotone (Nat.zero_le magnitude)

section

variable {value : ℚ} {below other : Nat}

theorem distance_of_le (h : valueOf below ≤ value) (hother : other ≤ below) :
    |value - valueOf other| = value - valueOf other := by
  have hvalue := valueOf_strictMono.monotone hother
  exact abs_of_nonneg (by linarith)

theorem distance_of_lt (h : value < valueOf (below + 1)) (hother : below < other) :
    |value - valueOf other| = valueOf other - value := by
  have hvalue := valueOf_strictMono.monotone (Nat.succ_le_of_lt hother)
  rw [abs_sub_comm]
  exact abs_of_nonneg (by linarith)

/-- Each magnitude is farther away than its neighbour on the way to the value. -/
theorem exists_neighbour (hbelow : valueOf below ≤ value) (habove : value < valueOf (below + 1))
    (other : Nat) : ∃ neighbour, (neighbour = below ∨ neighbour = below + 1) ∧
      (other = neighbour ∨ |value - valueOf neighbour| < |value - valueOf other|) := by
  rcases Nat.lt_or_ge below other with hother | hother
  · refine ⟨below + 1, .inr rfl, (Nat.eq_or_lt_of_le hother).imp Eq.symm fun hlt => ?_⟩
    have hvalue := valueOf_strictMono hlt
    rw [distance_of_lt habove hother, distance_of_lt habove (Nat.lt_succ_self below)]
    linarith
  · refine ⟨below, .inl rfl, (Nat.eq_or_lt_of_le hother).imp_right fun hlt => ?_⟩
    have hvalue := valueOf_strictMono hlt
    rw [distance_of_le hbelow hother, distance_of_le hbelow (Nat.le_refl below)]
    linarith

/-- The nearer of the two neighbours of a value is nearest to it. -/
theorem rounds_of_neighbours {magnitude : Nat} (hle : magnitude ≤ infiniteMagnitude)
    (hbelow : valueOf below ≤ value) (habove : value < valueOf (below + 1))
    (hnearer : ∀ neighbour, neighbour = below ∨ neighbour = below + 1 →
      |value - valueOf magnitude| ≤ |value - valueOf neighbour|)
    (heven : ∀ neighbour, neighbour = below ∨ neighbour = below + 1 → neighbour ≠ magnitude →
      |value - valueOf magnitude| = |value - valueOf neighbour| → magnitude % 2 = 0) :
    Rounds value magnitude where
  le_infinite := hle
  nearest other _ := by
    obtain ⟨neighbour, hneighbour, hother⟩ := exists_neighbour hbelow habove other
    rcases hother with rfl | hfarther
    · exact hnearer other hneighbour
    · exact (hnearer neighbour hneighbour).trans (le_of_lt hfarther)
  even other _ hne hequal := by
    obtain ⟨neighbour, hneighbour, hother⟩ := exists_neighbour hbelow habove other
    rcases hother with rfl | hfarther
    · exact heven other hneighbour hne hequal
    · exact absurd hequal (ne_of_lt ((hnearer neighbour hneighbour).trans_lt hfarther))

/-- What is not below infinity is rounded to it. -/
theorem rounds_infinite (h : valueOf infiniteMagnitude ≤ value) :
    Rounds value infiniteMagnitude where
  le_infinite := Nat.le_refl _
  nearest other hother := by
    have hvalue := valueOf_strictMono.monotone hother
    rw [distance_of_le h (Nat.le_refl _), distance_of_le h hother]
    linarith
  even _ _ _ _ := by decide

end

theorem nearestNat_cases (numerator denominator : Nat) :
    (nearestNat numerator denominator = numerator / denominator ∧
      2 * (numerator % denominator) ≤ denominator ∧
      (2 * (numerator % denominator) = denominator → numerator / denominator % 2 = 0)) ∨
    (nearestNat numerator denominator = numerator / denominator + 1 ∧
      denominator ≤ 2 * (numerator % denominator) ∧
      (2 * (numerator % denominator) = denominator → (numerator / denominator + 1) % 2 = 0)) := by
  simp only [nearestNat, Bool.or_eq_true, Bool.and_eq_true, decide_eq_true_eq, beq_iff_eq]
  split <;> omega

/-- The values of the neighbours of a ratio of quanta, by their distances. -/
theorem valueOf_neighbours {numerator denominator exponent : Nat} (h : 0 < denominator)
    (hexponent : exponent = (numerator / denominator).log2 - 52) :
    (numerator / (denominator * unit) : ℚ) -
        valueOf (exponent * 2 ^ 52 + numerator / (denominator * 2 ^ exponent)) =
      (numerator % (denominator * 2 ^ exponent) : Nat) / (denominator * unit) ∧
    valueOf (exponent * 2 ^ 52 + numerator / (denominator * 2 ^ exponent) + 1) -
        (numerator / (denominator * unit) : ℚ) =
      ((denominator * 2 ^ exponent : Nat) - (numerator % (denominator * 2 ^ exponent) : Nat)) /
        (denominator * unit) := by
  obtain ⟨hdigits, hnormal⟩ := digits_of_ratio hexponent
  have hdivision := Nat.div_add_mod numerator (denominator * 2 ^ exponent)
  have hnext : exponent ≠ 0 → 2 ^ 52 ≤ numerator / (denominator * 2 ^ exponent) + 1 :=
    fun hne => Nat.le_succ_of_le (hnormal hne)
  rw [Nat.add_assoc, valueOf, valueOf, quantaOf_add (Nat.le_of_lt hdigits) hnormal,
    quantaOf_add hdigits hnext]
  generalize numerator / (denominator * 2 ^ exponent) = digits at *
  generalize numerator % (denominator * 2 ^ exponent) = remainder at *
  have hunit := ne_of_gt unit_pos
  have hdenominator : (denominator : ℚ) ≠ 0 := Nat.cast_ne_zero.mpr (Nat.ne_of_gt h)
  generalize (unit : ℚ) = unit at *
  subst hdivision
  push_cast
  constructor
  · field_simp
    ring
  · field_simp
    ring

/-- Of a value that lies `remainder` steps above its lower neighbour, the neighbours being `width`
steps apart, the nearer neighbour is nearest. -/
theorem rounds_of_remainder {value scale : ℚ} {below width remainder magnitude : Nat}
    (hscale : 0 < scale) (hremainder : remainder < width)
    (hlow : value - valueOf below = remainder / scale)
    (hhigh : valueOf (below + 1) - value = (width - remainder) / scale)
    (hle : magnitude ≤ infiniteMagnitude)
    (hcases : (magnitude = below ∧ 2 * remainder ≤ width ∧
        (2 * remainder = width → below % 2 = 0)) ∨
      (magnitude = below + 1 ∧ width ≤ 2 * remainder ∧
        (2 * remainder = width → (below + 1) % 2 = 0))) :
    Rounds value magnitude := by
  have hbelow : valueOf below ≤ value := by
    apply sub_nonneg.mp
    rw [hlow]
    exact div_nonneg (Nat.cast_nonneg _) (le_of_lt hscale)
  have habove : value < valueOf (below + 1) := by
    apply sub_pos.mp
    rw [hhigh]
    exact div_pos (sub_pos.mpr (Nat.cast_lt.mpr hremainder)) hscale
  have hdown := (distance_of_le hbelow (Nat.le_refl below)).trans hlow
  have hup := (distance_of_lt habove (Nat.lt_succ_self below)).trans hhigh
  have hdown_le : |value - valueOf below| ≤ |value - valueOf (below + 1)| ↔
      2 * remainder ≤ width := by
    rw [hdown, hup, div_le_div_iff_of_pos_right hscale, le_sub_iff_add_le, ← two_mul]
    exact_mod_cast Iff.rfl
  have hup_le : |value - valueOf (below + 1)| ≤ |value - valueOf below| ↔
      width ≤ 2 * remainder := by
    rw [hdown, hup, div_le_div_iff_of_pos_right hscale, sub_le_iff_le_add, ← two_mul]
    exact_mod_cast Iff.rfl
  have hhalf (hequal : |value - valueOf below| = |value - valueOf (below + 1)|) :
      2 * remainder = width :=
    Nat.le_antisymm (hdown_le.mp (le_of_eq hequal)) (hup_le.mp (ge_of_eq hequal))
  obtain ⟨rfl, hnearer, heven⟩ | ⟨rfl, hnearer, heven⟩ := hcases
  · refine rounds_of_neighbours hle hbelow habove ?_ ?_
    · rintro neighbour (rfl | rfl)
      · exact le_refl _
      · exact hdown_le.mpr hnearer
    · rintro neighbour (rfl | rfl) hne hequal
      · exact absurd rfl hne
      · exact heven (hhalf hequal)
  · refine rounds_of_neighbours hle hbelow habove ?_ ?_
    · rintro neighbour (rfl | rfl)
      · exact hup_le.mpr hnearer
      · exact le_refl _
    · rintro neighbour (rfl | rfl) hne hequal
      · exact heven (hhalf hequal.symm)
      · exact absurd rfl hne

/-- Rounding a ratio of quanta gives the nearest magnitude. -/
theorem nearestMagnitude_rounds (numerator : Nat) {denominator : Nat} (h : 0 < denominator) :
    Rounds (numerator / (denominator * unit)) (nearestMagnitude numerator denominator) := by
  obtain ⟨exponent, hexponent⟩ :
      ∃ exponent, exponent = (numerator / denominator).log2 - 52 := ⟨_, rfl⟩
  have hnearest : nearestMagnitude numerator denominator = min infiniteMagnitude
      (exponent * 2 ^ 52 + nearestNat numerator (denominator * 2 ^ exponent)) := by
    rw [hexponent]
    rfl
  obtain ⟨hlow, hhigh⟩ := valueOf_neighbours h hexponent
  have hcases := nearestNat_cases numerator (denominator * 2 ^ exponent)
  have hremainder := Nat.mod_lt numerator (Nat.mul_pos h (Nat.two_pow_pos exponent))
  have hscale : (0 : ℚ) < denominator * unit := mul_pos (Nat.cast_pos.mpr h) unit_pos
  rcases Nat.lt_or_ge (exponent * 2 ^ 52 + numerator / (denominator * 2 ^ exponent))
    infiniteMagnitude with hfinite | hinfinite
  · rw [hnearest, Nat.min_eq_right (by omega)]
    refine rounds_of_remainder hscale hremainder hlow hhigh (by omega) ?_
    omega
  · rw [hnearest, Nat.min_eq_left (by omega)]
    apply rounds_infinite
    have hbelow := sub_nonneg.mp (hlow ▸ div_nonneg (Nat.cast_nonneg _) (le_of_lt hscale))
    exact (valueOf_strictMono.monotone hinfinite).trans hbelow

/-! Signs -/

def value (x : Number) : ℚ :=
  if x.isNegative then -valueOf x.magnitude else valueOf x.magnitude

/-- A number that is nearest to a value, and an even one if others are as near. -/
structure IsNearest (x : Number) (value : ℚ) : Prop where
  isNaN_eq : x.isNaN = false
  nearest : ∀ y : Number, y.isNaN = false → |value - x.value| ≤ |value - y.value|
  even : ∀ y : Number, y.isNaN = false → y.value ≠ x.value →
    |value - x.value| = |value - y.value| → x.magnitude % 2 = 0

variable {x y : Number}

theorem isNaN_eq_false_iff : x.isNaN = false ↔ x.magnitude ≤ infiniteMagnitude := by
  simp [isNaN]

theorem magnitude_ofMagnitude {magnitude : Nat} (h : magnitude ≤ infiniteMagnitude)
    (negative : Bool) : (ofMagnitude negative magnitude).magnitude = magnitude ∧
      (ofMagnitude negative magnitude).isNegative = negative := by
  have hinfinite : infiniteMagnitude < 2 ^ 63 := by decide
  have hbits : (ofMagnitude negative magnitude).bits.toNat =
      if negative then 2 ^ 63 + magnitude else magnitude := by
    have hsize : UInt64.size = 2 ^ 64 := rfl
    have hpow : Nat.pow 2 63 = 2 ^ 63 := rfl
    apply UInt64.toNat_ofNat_of_lt'
    split <;> omega
  unfold Number.magnitude isNegative
  rw [hbits]
  cases negative <;> simp <;> omega

theorem exists_rank {rank : Int} (h : rank.natAbs ≤ infiniteMagnitude) :
    ∃ x : Number, x.isNaN = false ∧ x.rank = rank := by
  obtain ⟨hmagnitude, hnegative⟩ := magnitude_ofMagnitude h (decide (rank < 0))
  refine ⟨ofMagnitude (decide (rank < 0)) rank.natAbs, ?_, ?_⟩
  · rwa [isNaN_eq_false_iff, hmagnitude]
  · rw [Number.rank, hnegative, hmagnitude]
    simp only [decide_eq_true_eq]
    split <;> omega

/-- The value of the numbers of a rank. -/
def valueAt (rank : Int) : ℚ :=
  if rank < 0 then -valueOf rank.natAbs else valueOf rank.natAbs

theorem value_eq_valueAt (x : Number) : x.value = valueAt x.rank := by
  unfold value valueAt rank
  cases hnegative : x.isNegative with
  | false => simp
  | true =>
      by_cases hzero : x.magnitude = 0
      · simp [hzero, valueOf_zero]
      · simp [Nat.pos_of_ne_zero hzero]

theorem valueAt_strictMono : StrictMono valueAt := by
  intro left right hlt
  unfold valueAt
  split <;> split
  · exact neg_lt_neg (valueOf_strictMono (by omega))
  · next hleft _ =>
      have hpositive : valueOf 0 < valueOf left.natAbs := valueOf_strictMono (by omega)
      have hnonneg := valueOf_nonneg right.natAbs
      rw [valueOf_zero] at hpositive
      linarith
  · omega
  · exact valueOf_strictMono (by omega)

/-- Numbers are equal if they have one value. -/
theorem equal_iff (hx : x.isNaN = false) (hy : y.isNaN = false) :
    x.equal y = true ↔ x.value = y.value := by
  rw [value_eq_valueAt, value_eq_valueAt, valueAt_strictMono.injective.eq_iff]
  simp [equal, hx, hy]

theorem magnitude_eq_natAbs_rank (x : Number) : x.magnitude = x.rank.natAbs := by
  unfold rank
  split <;> simp

theorem abs_value (x : Number) : |x.value| = valueOf x.magnitude := by
  have habs := abs_of_nonneg (valueOf_nonneg x.magnitude)
  unfold value
  split
  · rw [abs_neg, habs]
  · exact habs

namespace IsNearest

variable {amount : ℚ}

/-- Between two even numbers there is another one, so they are not both nearest. -/
theorem value_le (hx : x.IsNearest amount) (hy : y.IsNearest amount) : y.value ≤ x.value := by
  by_contra hlt
  rw [not_le] at hlt
  have hequal := le_antisymm (hx.nearest y hy.isNaN_eq) (hy.nearest x hx.isNaN_eq)
  have hevenx := hx.even y hy.isNaN_eq (ne_of_gt hlt) hequal
  have heveny := hy.even x hx.isNaN_eq (ne_of_lt hlt) hequal.symm
  have hboundx := isNaN_eq_false_iff.mp hx.isNaN_eq
  have hboundy := isNaN_eq_false_iff.mp hy.isNaN_eq
  rw [value_eq_valueAt, value_eq_valueAt, valueAt_strictMono.lt_iff_lt] at hlt
  rw [magnitude_eq_natAbs_rank] at hevenx heveny hboundx hboundy
  have hbound : (x.rank + 1).natAbs ≤ infiniteMagnitude := by omega
  obtain ⟨z, hz, hrank⟩ := exists_rank hbound
  have hxz : x.value < z.value := by
    rw [value_eq_valueAt, value_eq_valueAt]
    exact valueAt_strictMono (by omega)
  have hzy : z.value < y.value := by
    rw [value_eq_valueAt, value_eq_valueAt]
    exact valueAt_strictMono (by omega)
  have hnearest := hx.nearest z hz
  grind

theorem equal (hx : x.IsNearest amount) (hy : y.IsNearest amount) : x.equal y = true :=
  (equal_iff hx.isNaN_eq hy.isNaN_eq).mpr (le_antisymm (hy.value_le hx) (hx.value_le hy))

theorem congr (hx : x.IsNearest amount) (hy : y.isNaN = false) (h : y.value = x.value) :
    y.IsNearest amount where
  isNaN_eq := hy
  nearest z hz := h ▸ hx.nearest z hz
  even z hz hne hequal := by
    have hrank := h
    rw [value_eq_valueAt, value_eq_valueAt, valueAt_strictMono.injective.eq_iff] at hrank
    rw [h] at hne hequal
    rw [magnitude_eq_natAbs_rank, hrank, ← magnitude_eq_natAbs_rank]
    exact hx.even z hz hne hequal

/-- The numbers nearest to a value are those that are equal to one of them. -/
theorem iff_equal (hx : x.IsNearest amount) : y.IsNearest amount ↔ y.equal x = true := by
  constructor
  · exact fun hy => hy.equal hx
  · intro hequal
    have hy : y.isNaN = false := by
      have hboth := hequal
      simp only [Number.equal, Bool.and_eq_true, Bool.not_eq_true'] at hboth
      exact hboth.1.1
    exact hx.congr hy ((equal_iff hy hx.isNaN_eq).mp hequal)

/-- The nearest magnitude makes the nearest number with the sign of the value, which does not matter
for zero. -/
theorem of_rounds {negative : Bool} (h : Rounds amount x.magnitude) (hamount : 0 ≤ amount)
    (hsign : x.magnitude ≠ 0 → x.isNegative = negative) :
    x.IsNearest (if negative then -amount else amount) := by
  have hdistance : |(if negative then -amount else amount) - x.value| =
      |amount - valueOf x.magnitude| := by
    unfold value
    by_cases hzero : x.magnitude = 0
    · simp only [hzero, valueOf_zero, neg_zero, ite_self, sub_zero]
      split <;> simp
    · rw [hsign hzero]
      cases negative with
      | false => rfl
      | true => simp only [if_true, neg_sub_neg, abs_sub_comm]
  have hamounts : |if negative then -amount else amount| = amount := by
    split
    · rw [abs_neg, abs_of_nonneg hamount]
    · exact abs_of_nonneg hamount
  -- another sign only adds to a distance
  have hothers (y : Number) : |amount - valueOf y.magnitude| ≤
      |(if negative then -amount else amount) - y.value| := by
    have hreverse := abs_abs_sub_abs_le (if negative then -amount else amount) y.value
    rwa [hamounts, abs_value] at hreverse
  refine ⟨isNaN_eq_false_iff.mpr h.le_infinite, fun y hy => ?_, fun y hy hne hequal => ?_⟩
  · rw [hdistance]
    exact (h.nearest y.magnitude (isNaN_eq_false_iff.mp hy)).trans (hothers y)
  · have hboth := h.nearest y.magnitude (isNaN_eq_false_iff.mp hy)
    have hsame := le_antisymm hboth (hdistance ▸ hequal ▸ hothers y)
    refine h.even y.magnitude (isNaN_eq_false_iff.mp hy) (fun hmagnitude => hne ?_) hsame
    -- two signs of one magnitude are equally near to zero only, which is a number itself
    have habs : |y.value| = |x.value| := by rw [abs_value, abs_value, hmagnitude]
    rcases abs_eq_abs.mp hequal with heq | heq
    · linarith
    · rcases abs_eq_abs.mp habs with hvalues | hvalues
      · exact hvalues
      · have hzero : amount = 0 := by
          rw [← hamounts, abs_eq_zero]
          linarith
        have hnearest := h.nearest 0 (Nat.zero_le _)
        rw [hzero, valueOf_zero, sub_zero, abs_zero, zero_sub, abs_neg, abs_nonpos_iff] at hnearest
        have hx : x.value = 0 := by rw [← abs_eq_zero, abs_value, hnearest]
        linarith

end IsNearest

end Treewalk.Number
