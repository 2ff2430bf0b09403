import Mathlib.Data.List.TakeWhile
import Mathlib.Tactic.Ring
import Treewalk.Proofs.Number.Rounding

/-!
Numerals are read as they are written: the text of a numeral is again that of a numeral of its
value.
-/

namespace Treewalk

/-- The two numerals have one value. -/
def Numeral.SameValue (left right : Numeral) : Prop :=
  left.digits * 10 ^ right.places = right.digits * 10 ^ left.places

theorem Numeral.SameValue.magnitude_eq {left right : Numeral} (h : left.SameValue right) :
    left.magnitude = right.magnitude := by
  have hleft : 0 < 10 ^ left.places := Nat.pow_pos (by decide)
  have hright : 0 < 10 ^ right.places := Nat.pow_pos (by decide)
  calc left.magnitude
      = Number.nearestMagnitude (left.digits * Number.unit * 10 ^ right.places)
          (10 ^ left.places * 10 ^ right.places) :=
        (Number.nearestMagnitude_mul _ _ hright).symm
    _ = Number.nearestMagnitude (right.digits * Number.unit * 10 ^ left.places)
          (10 ^ right.places * 10 ^ left.places) := by
        rw [Nat.mul_right_comm, h, Nat.mul_right_comm, Nat.mul_comm (10 ^ left.places)]
    _ = right.magnitude := Number.nearestMagnitude_mul _ _ hleft

namespace Numeral

theorem ofDigits_eq (digits : List Char) : ofDigits digits = Nat.ofDigitChars 10 digits 0 := by
  simp only [ofDigits, Nat.ofDigitChars_eq_foldl, Nat.mul_comm 10]

theorem ofDigits_append (first second : List Char) :
    ofDigits (first ++ second) = ofDigits first * 10 ^ second.length + ofDigits second := by
  rw [ofDigits_eq, ofDigits_eq, ofDigits_eq, Nat.ofDigitChars_append,
    Nat.ofDigitChars_eq_ofDigitChars_zero, Nat.mul_comm]

theorem ofDigits_replicate (count : Nat) : ofDigits (List.replicate count '0') = 0 := by
  rw [ofDigits_eq, Nat.ofDigitChars_replicate_zero, Nat.mul_zero]

theorem ofDigits_toDigits (value : Nat) : ofDigits (Nat.toDigits 10 value) = value := by
  rw [ofDigits_eq, Nat.ofDigitChars_ten_toDigits]

theorem isDigit_of_mem_toDigits {value : Nat} {digit : Char} (h : digit ∈ Nat.toDigits 10 value) :
    digit.isDigit = true :=
  Nat.isDigit_of_mem_toDigits (by decide) (by decide) h

/-- The zeros that end a row are all that is dropped from it. -/
theorem exists_dropped_zeros (digits : List Char) :
    ∃ count, digits =
      (digits.reverse.dropWhile (· == '0')).reverse ++ List.replicate count '0' := by
  have hsplit := congrArg List.reverse
    (List.takeWhile_append_dropWhile (p := (· == '0')) (l := digits.reverse))
  rw [List.reverse_append, List.reverse_reverse] at hsplit
  have hzeros : digits.reverse.takeWhile (· == '0') = List.replicate _ '0' :=
    List.eq_replicate_of_mem fun digit hmem => by simpa using List.mem_takeWhile_imp hmem
  rw [hzeros, List.reverse_replicate] at hsplit
  exact ⟨_, hsplit.symm⟩

variable (numeral : Numeral)

/-- The digits after the point are those of the fraction and the zeros dropped from it. -/
theorem exists_fraction :
    ∃ zeros, ofDigits numeral.fraction * 10 ^ zeros = numeral.digits % 10 ^ numeral.places ∧
      (∀ digit ∈ numeral.fraction, digit.isDigit = true) ∧
      (numeral.fraction ≠ [] → numeral.fraction.length + zeros = numeral.places) := by
  have hfraction : numeral.fraction =
      ((List.replicate (numeral.places -
          (Nat.toDigits 10 (numeral.digits % 10 ^ numeral.places)).length) '0' ++
        Nat.toDigits 10 (numeral.digits % 10 ^ numeral.places)).reverse.dropWhile
          (· == '0')).reverse := rfl
  have hwidth : numeral.places ≠ 0 →
      (Nat.toDigits 10 (numeral.digits % 10 ^ numeral.places)).length ≤ numeral.places :=
    fun hplaces => (Nat.length_toDigits_le_iff (by decide) (by omega)).mpr
      (Nat.mod_lt _ (Nat.pow_pos (by decide)))
  have hnone : numeral.places = 0 → numeral.fraction = [] := by
    intro hplaces
    simp [fraction, hplaces, Nat.mod_one, Nat.toDigits_zero]
  have hvalue := ofDigits_toDigits (numeral.digits % 10 ^ numeral.places)
  have hdigits : ∀ digit ∈ Nat.toDigits 10 (numeral.digits % 10 ^ numeral.places),
      digit.isDigit = true := fun _ => isDigit_of_mem_toDigits
  generalize Nat.toDigits 10 (numeral.digits % 10 ^ numeral.places) = digits at *
  obtain ⟨zeros, hsplit⟩ :=
    exists_dropped_zeros (List.replicate (numeral.places - digits.length) '0' ++ digits)
  rw [← hfraction] at hsplit
  refine ⟨zeros, ?_, ?_, ?_⟩
  · have hread := congrArg ofDigits hsplit
    rw [ofDigits_append, ofDigits_append, ofDigits_replicate, ofDigits_replicate, hvalue,
      List.length_replicate, Nat.zero_mul, Nat.zero_add, Nat.add_zero] at hread
    exact hread.symm
  · intro digit hmem
    have hpadded : digit ∈ List.replicate (numeral.places - digits.length) '0' ++ digits := by
      rw [hsplit]
      exact List.mem_append_left _ hmem
    rcases List.mem_append.mp hpadded with hzero | hdigit
    · rw [List.eq_of_mem_replicate hzero]
      rfl
    · exact hdigits digit hdigit
  · intro hne
    have hlength := congrArg List.length hsplit
    have hle := hwidth fun hplaces => hne (hnone hplaces)
    simp only [List.length_append, List.length_replicate] at hlength
    omega

theorem text_of_whole (h : numeral.fraction = []) :
    numeral.text = Nat.toDigits 10 (numeral.digits / 10 ^ numeral.places) := by
  simp only [text, h]
  rfl

theorem text_of_fraction (h : numeral.fraction ≠ []) : numeral.text =
    Nat.toDigits 10 (numeral.digits / 10 ^ numeral.places) ++ '.' :: numeral.fraction := by
  obtain ⟨first, rest, hfraction⟩ := List.exists_cons_of_ne_nil h
  simp only [text, hfraction]
  rfl

theorem read?_whole {whole : List Char} (hwhole : ∀ digit ∈ whole, digit.isDigit = true)
    (hne : whole ≠ []) : read? whole = some ⟨ofDigits whole, 0⟩ := by
  have htake : whole.takeWhile Char.isDigit = whole := List.takeWhile_eq_self_iff.mpr hwhole
  have hdrop : whole.dropWhile Char.isDigit = [] := List.dropWhile_eq_nil_iff.mpr hwhole
  simp [read?, htake, hdrop, hne]

theorem read?_point {whole fraction : List Char} (hwhole : ∀ digit ∈ whole, digit.isDigit = true)
    (hne : whole ≠ []) (hfraction : ∀ digit ∈ fraction, digit.isDigit = true)
    (hne' : fraction ≠ []) :
    read? (whole ++ '.' :: fraction) =
      some ⟨ofDigits (whole ++ fraction), fraction.length⟩ := by
  have htake : (whole ++ '.' :: fraction).takeWhile Char.isDigit = whole := by
    rw [List.takeWhile_append_of_pos hwhole, List.takeWhile_cons_of_neg (by decide),
      List.append_nil]
  have hdrop : (whole ++ '.' :: fraction).dropWhile Char.isDigit = '.' :: fraction := by
    rw [List.dropWhile_append_of_pos hwhole, List.dropWhile_cons_of_neg (by decide)]
  have hall : fraction.all Char.isDigit = true := List.all_eq_true.mpr hfraction
  simp [read?, htake, hdrop, hne, hne', hall]

/-- The text of a numeral is read as a numeral of the same value. -/
theorem read?_text : ∃ other, read? numeral.text = some other ∧ other.SameValue numeral := by
  obtain ⟨zeros, hvalue, hfraction, hlength⟩ := numeral.exists_fraction
  have hwhole : ∀ digit ∈ Nat.toDigits 10 (numeral.digits / 10 ^ numeral.places),
      digit.isDigit = true := fun _ => isDigit_of_mem_toDigits
  have hdivision := Nat.div_add_mod' numeral.digits (10 ^ numeral.places)
  rw [← hvalue] at hdivision
  by_cases hne : numeral.fraction = []
  · rw [numeral.text_of_whole hne]
    refine ⟨_, read?_whole hwhole Nat.toDigits_ne_nil, ?_⟩
    rw [SameValue, ofDigits_toDigits, Nat.pow_zero, Nat.mul_one]
    simpa [hne, ofDigits] using hdivision
  · rw [numeral.text_of_fraction hne]
    refine ⟨_, read?_point hwhole Nat.toDigits_ne_nil hfraction hne, ?_⟩
    rw [SameValue, ofDigits_append, ofDigits_toDigits]
    generalize numeral.digits / 10 ^ numeral.places = whole at hdivision ⊢
    generalize ofDigits numeral.fraction = fraction at hdivision ⊢
    rw [← hlength hne] at hdivision ⊢
    rw [← hdivision]
    ring

end Numeral

end Treewalk
