import Treewalk.Number.Text
import Treewalk.Proofs.Number.Reading

/-!
The text of a finite number is that of a numeral that stands for this number. So numbers that differ
are written differently.
-/

namespace Treewalk.Number

variable {x : Number}

theorem nearestMagnitude_quanta (h : x.isFinite = true) :
    nearestMagnitude x.quanta 1 = x.magnitude :=
  nearestMagnitude_quantaOf (by simpa [isFinite] using h)

theorem quanta_eq_zero (h : x.magnitude = 0) : x.quanta = 0 := by
  simp [quanta, quantaOf, h]

/-! Each of the numerals by which a number may be written stands for it. -/

theorem magnitude_exactNumeral (h : x.isFinite = true) :
    x.exactNumeral.magnitude = x.magnitude := by
  -- for any number of places, so that no power is computed
  obtain ⟨places, hunit, hexact⟩ : ∃ places, unit = Nat.pow 2 places ∧
      x.exactNumeral = ⟨x.quanta * Nat.pow 5 places, places⟩ := by
    refine ⟨1074, ?_, ?_⟩
    · unfold unit
      with_reducible rfl
    · unfold exactNumeral
      with_reducible rfl
  have hten : Nat.pow 5 places * Nat.pow 2 places = Nat.pow 10 places :=
    (Nat.mul_pow 5 2 places).symm
  have hratio := nearestMagnitude_mul x.quanta 1 (Nat.pow_pos (by decide) : 0 < 10 ^ places)
  rw [Nat.one_mul, nearestMagnitude_quanta h] at hratio
  rw [hexact, Numeral.magnitude, hunit, Nat.mul_assoc, hten]
  exact hratio

theorem magnitude_numeralOfLength? {length : Nat} {numeral : Numeral}
    (h : x.numeralOfLength? length = some numeral) : numeral.magnitude = x.magnitude := by
  rw [numeralOfLength?, Option.map_eq_some_iff] at h
  obtain ⟨digits, hdigits, rfl⟩ := h
  have hstands := List.find?_some hdigits
  rwa [beq_iff_eq] at hstands

theorem magnitude_shortestNumeral (h : x.isFinite = true) :
    x.shortestNumeral.magnitude = x.magnitude := by
  unfold shortestNumeral
  cases hfound : (List.range' 1 17).findSome? x.numeralOfLength? with
  | none => exact magnitude_exactNumeral h
  | some numeral =>
      obtain ⟨length, -, hlength⟩ := List.exists_of_findSome?_eq_some hfound
      exact magnitude_numeralOfLength? hlength

theorem magnitude_wholeNumeral (h : x.isWhole = true) :
    (Numeral.mk (x.quanta / unit) 0).magnitude = x.magnitude := by
  rw [isWhole, Bool.and_eq_true, beq_iff_eq] at h
  obtain ⟨hfinite, hwhole⟩ := h
  have hquanta := Nat.div_mul_cancel (Nat.dvd_of_mod_eq_zero hwhole)
  rw [Numeral.magnitude, hquanta]
  exact nearestMagnitude_quanta hfinite

/-- The numeral by which a finite number is written. -/
def writtenNumeral (x : Number) : Numeral :=
  if x.isWhole then ⟨x.quanta / unit, 0⟩ else x.shortestNumeral

theorem magnitude_writtenNumeral (h : x.isFinite = true) :
    x.writtenNumeral.magnitude = x.magnitude := by
  unfold writtenNumeral
  split
  · next hwhole => exact magnitude_wholeNumeral hwhole
  · exact magnitude_shortestNumeral h

/-- A finite number is written with its sign unless it is zero. -/
theorem text_eq (h : x.isFinite = true) :
    x.text = signedText (x.isNegative && x.magnitude != 0) x x.writtenNumeral := by
  unfold text writtenNumeral
  split
  · rfl
  · next hwhole =>
      have hzero : x.magnitude ≠ 0 := by
        intro hzero
        simp [isWhole, h, quanta_eq_zero hzero] at hwhole
      rw [shortestText, bne_iff_ne.mpr hzero, Bool.and_true]

theorem signedText_of_isFinite (h : x.isFinite = true) (negative : Bool) (numeral : Numeral) :
    signedText negative x numeral =
      if negative then "-" ++ String.ofList numeral.text else String.ofList numeral.text := by
  have hlt : x.magnitude < infiniteMagnitude := by simpa [isFinite] using h
  have hnan : x.isNaN = false := by simpa [isNaN] using Nat.le_of_lt hlt
  have hinfinite : x.isInfinite = false := by simpa [isInfinite] using Nat.ne_of_lt hlt
  simp [signedText, hnan, hinfinite]

/-- A finite number without a sign is written by a numeral that stands for it. -/
theorem exists_text_eq (h : x.isFinite = true) (hsign : x.isNegative = false) :
    ∃ numeral : Numeral, numeral.magnitude = x.magnitude ∧
      x.text = String.ofList numeral.text := by
  refine ⟨x.writtenNumeral, magnitude_writtenNumeral h, ?_⟩
  rw [text_eq h, signedText_of_isFinite h, hsign]
  rfl

/-- A number that is read has no sign. -/
theorem isNegative_number (numeral : Numeral) : numeral.number.isNegative = false := by
  have hle : numeral.magnitude ≤ infiniteMagnitude := by
    rw [Numeral.magnitude]
    exact nearestMagnitude_le _ _
  have hinfinite : infiniteMagnitude < 2 ^ 63 := by decide
  have hsize : 2 ^ 63 < UInt64.size := by decide
  generalize hmagnitude : numeral.magnitude = magnitude at hle
  have hbits : numeral.number.bits.toNat = magnitude := by
    rw [Numeral.number, ofMagnitude, hmagnitude, if_neg Bool.false_ne_true]
    exact UInt64.toNat_ofNat_of_lt' (by omega)
  rw [isNegative, hbits, decide_eq_false_iff_not]
  change ¬2 ^ 63 ≤ magnitude
  omega

/-- The sign and the other bits make a number. -/
theorem eq_of_magnitude_eq {y : Number} (hsign : x.isNegative = y.isNegative)
    (h : x.magnitude = y.magnitude) : x = y := by
  have hsize : UInt64.size = 2 ^ 64 := rfl
  have hpow : Nat.pow 2 63 = 2 ^ 63 := rfl
  have hx := x.bits.toNat_lt_size
  have hy := y.bits.toNat_lt_size
  have hbits : x.bits.toNat = y.bits.toNat := by
    unfold isNegative at hsign
    unfold magnitude at h
    rw [decide_eq_decide, hpow] at hsign
    rw [hpow] at h
    omega
  cases x
  cases y
  exact congrArg Number.mk (UInt64.toNat_inj.mp hbits)

/-- Different finite numbers without a sign are written differently. -/
theorem eq_of_text_eq {y : Number} (hx : x.isFinite = true) (hy : y.isFinite = true)
    (hsign : x.isNegative = false) (hsign' : y.isNegative = false) (h : x.text = y.text) :
    x = y := by
  obtain ⟨numeral, hnumeral, htext⟩ := exists_text_eq hx hsign
  obtain ⟨numeral', hnumeral', htext'⟩ := exists_text_eq hy hsign'
  obtain ⟨other, hread, hother⟩ := numeral.read?_text
  obtain ⟨other', hread', hother'⟩ := numeral'.read?_text
  have hsame : numeral.text = numeral'.text := String.ofList_injective (htext ▸ htext' ▸ h)
  rw [hsame, hread'] at hread
  obtain rfl := Option.some.inj hread
  apply eq_of_magnitude_eq (hsign.trans hsign'.symm)
  rw [← hnumeral, ← hnumeral', ← hother.magnitude_eq, ← hother'.magnitude_eq]

end Treewalk.Number
