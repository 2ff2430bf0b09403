import Mathlib
import Treewalk.Proofs.Number.Nearest
import Treewalk.Proofs.Number.Text

/-!
Plain decimals and their values. A finite number is written as a decimal to which it is nearest, a
whole number with exactly its own digits, and equal numbers alone are written alike.
-/

namespace Treewalk

namespace Numeral

/-! Leading zeros -/

/-- The zeros that begin a row of digits are left out, but for the last digit. -/
def withoutLeadingZeros (digits : List Char) : List Char :=
  match digits.dropWhile (· == '0') with
  | [] => ['0']
  | significant => significant

theorem exists_digitChar {digit : Char} (h : digit.isDigit = true) :
    ∃ value < 10, digit = Nat.digitChar value := by
  have hall : ∀ value < 10, Char.ofNat (48 + value) = Nat.digitChar value := by decide
  obtain ⟨hlow, hhigh⟩ : 48 ≤ digit.toNat ∧ digit.toNat ≤ 57 := Char.isDigit_iff_toNat.mp h
  refine ⟨digit.toNat - 48, by omega, ?_⟩
  rw [← hall _ (by omega), Nat.add_sub_cancel' hlow, Char.ofNat_toNat]

theorem ofDigits_concat (digits : List Char) {value : Nat} (h : value < 10) :
    ofDigits (digits ++ [Nat.digitChar value]) = 10 * ofDigits digits + value := by
  have hlast : ofDigits [Nat.digitChar value] = value := by
    rw [← Nat.toDigits_of_lt_base h, ofDigits_toDigits]
  rw [ofDigits_append, hlast, List.length_singleton, Nat.pow_one, Nat.mul_comm]

/-- A row of digits that does not begin with a zero is that of its value. -/
theorem toDigits_ofDigits {digits : List Char} (hdigits : ∀ digit ∈ digits, digit.isDigit = true)
    (hfirst : digits.head? ≠ some '0') (hne : digits ≠ []) :
    Nat.toDigits 10 (ofDigits digits) = digits := by
  induction digits using List.reverseRecOn with
  | nil => exact absurd rfl hne
  | append_singleton digits last ih =>
      rw [List.forall_mem_append, List.forall_mem_singleton] at hdigits
      obtain ⟨value, hvalue, rfl⟩ := exists_digitChar hdigits.2
      rw [ofDigits_concat digits hvalue]
      by_cases hnil : digits = []
      · subst hnil
        rw [ofDigits, List.foldl_nil, Nat.mul_zero, Nat.zero_add, Nat.toDigits_of_lt_base hvalue]
        rfl
      · rw [List.head?_append_of_ne_nil _ hnil] at hfirst
        have hdigits := ih hdigits.1 hfirst hnil
        have hpositive : 0 < ofDigits digits := by
          apply Nat.pos_of_ne_zero
          intro hzero
          rw [hzero, Nat.toDigits_zero] at hdigits
          exact hfirst (hdigits ▸ rfl)
        rw [← Nat.toDigits_append_toDigits (by decide) hpositive hvalue, hdigits,
          Nat.toDigits_of_lt_base hvalue]

theorem toDigits_eq_withoutLeadingZeros {digits : List Char}
    (hdigits : ∀ digit ∈ digits, digit.isDigit = true) :
    Nat.toDigits 10 (ofDigits digits) = withoutLeadingZeros digits := by
  have hzeros : digits.takeWhile (· == '0') = List.replicate _ '0' :=
    List.eq_replicate_of_mem fun digit hmem => by simpa using List.mem_takeWhile_imp hmem
  have hvalue : ofDigits digits = ofDigits (digits.dropWhile (· == '0')) := by
    conv_lhs => rw [← List.takeWhile_append_dropWhile (p := (· == '0')) (l := digits)]
    rw [ofDigits_append, hzeros, ofDigits_replicate, Nat.zero_mul, Nat.zero_add]
  have hrest : ∀ digit ∈ digits.dropWhile (· == '0'), digit.isDigit = true :=
    fun digit hmem => hdigits digit ((List.dropWhile_suffix _).subset hmem)
  have hfirst := List.head?_dropWhile_not (· == '0') digits
  unfold withoutLeadingZeros
  rw [hvalue]
  cases hsignificant : digits.dropWhile (· == '0') with
  | nil => rfl
  | cons first others =>
      rw [hsignificant] at hrest hfirst
      exact toDigits_ofDigits hrest (by simpa using hfirst) (by simp)

theorem withoutLeadingZeros_toDigits (value : Nat) :
    withoutLeadingZeros (Nat.toDigits 10 value) = Nat.toDigits 10 value := by
  rw [← toDigits_eq_withoutLeadingZeros fun _ => isDigit_of_mem_toDigits, ofDigits_toDigits]

/-! Values -/

def value (numeral : Numeral) : ℚ :=
  numeral.digits / 10 ^ numeral.places

theorem value_nonneg (numeral : Numeral) : 0 ≤ numeral.value := by
  unfold value
  positivity

theorem SameValue.value_eq {left right : Numeral} (h : left.SameValue right) :
    left.value = right.value := by
  have hcast : (left.digits * 10 ^ right.places : ℚ) = right.digits * 10 ^ left.places := by
    exact_mod_cast h
  exact (div_eq_div_iff (by positivity) (by positivity)).mpr hcast

/-- A numeral stands for the number nearest to its value. -/
theorem magnitude_rounds (numeral : Numeral) : Number.Rounds numeral.value numeral.magnitude := by
  have hplaces : 0 < Nat.pow 10 numeral.places := Nat.pow_pos (by decide)
  have hrounds := Number.nearestMagnitude_rounds (numeral.digits * Number.unit) hplaces
  rw [Nat.cast_mul, mul_div_mul_right _ _ (ne_of_gt Number.unit_pos), Nat.pow_eq, Nat.cast_pow]
    at hrounds
  exact hrounds

end Numeral

/-- A decimal without exponent: a sign or none, digits, and perhaps a point and more digits. -/
structure Decimal where
  negative : Bool
  whole : List Char
  fraction : List Char
  whole_ne_nil : whole ≠ []
  whole_digits : ∀ digit ∈ whole, digit.isDigit = true
  fraction_digits : ∀ digit ∈ fraction, digit.isDigit = true

namespace Decimal

/-- The text without the sign. -/
def body (decimal : Decimal) : List Char :=
  if decimal.fraction = [] then decimal.whole else decimal.whole ++ '.' :: decimal.fraction

def text (decimal : Decimal) : String :=
  String.ofList (if decimal.negative then '-' :: decimal.body else decimal.body)

/-- The numeral of all the digits. -/
def numeral (decimal : Decimal) : Numeral :=
  ⟨Numeral.ofDigits (decimal.whole ++ decimal.fraction), decimal.fraction.length⟩

def value (decimal : Decimal) : ℚ :=
  if decimal.negative then -decimal.numeral.value else decimal.numeral.value

variable {decimal other : Decimal}

theorem read?_body (decimal : Decimal) : Numeral.read? decimal.body = some decimal.numeral := by
  obtain ⟨negative, whole, fraction, hwhole, hdigits, hdigits'⟩ := decimal
  unfold body numeral
  split
  · next hnil =>
      rw [Numeral.read?_whole hdigits hwhole, hnil, List.append_nil]
      rfl
  · next hne => exact Numeral.read?_point hdigits hwhole hdigits' hne

theorem mem_body {char : Char} (h : char ∈ decimal.body) : char.isDigit = true ∨ char = '.' := by
  unfold body at h
  split at h
  · exact .inl (decimal.whole_digits char h)
  · rw [List.mem_append, List.mem_cons] at h
    rcases h with hmem | rfl | hmem
    · exact .inl (decimal.whole_digits char hmem)
    · exact .inr rfl
    · exact .inl (decimal.fraction_digits char hmem)

theorem mem_text {char : Char} (h : char ∈ decimal.text.toList) :
    char.isDigit = true ∨ char = '.' ∨ char = '-' := by
  unfold text at h
  rw [String.toList_ofList] at h
  split at h
  · rcases List.mem_cons.mp h with rfl | hmem
    · exact .inr (.inr rfl)
    · exact (mem_body hmem).imp_right .inl
  · exact (mem_body h).imp_right .inl

/-- Decimals of one text have one value. -/
theorem value_eq_of_text_eq (h : decimal.text = other.text) : decimal.value = other.value := by
  have hsign {body body' : List Char} (hbody : ∀ char ∈ body', char.isDigit = true ∨ char = '.') :
      '-' :: body ≠ body' := by
    rintro rfl
    simpa using hbody '-' List.mem_cons_self
  have hread {left right : Decimal} (hbody : left.body = right.body) :
      left.numeral = right.numeral := by
    have hleft := left.read?_body
    rw [hbody, right.read?_body] at hleft
    exact (Option.some.inj hleft).symm
  have htext := String.ofList_injective h
  unfold value
  split at htext <;> split at htext
  · next hnegative hnegative' =>
      rw [if_pos hnegative, if_pos hnegative', hread (List.cons.inj htext).2]
  · exact absurd htext (hsign fun _ => mem_body)
  · exact absurd htext.symm (hsign fun _ => mem_body)
  · next hpositive hpositive' =>
      rw [if_neg hpositive, if_neg hpositive', hread htext]

end Decimal

namespace Numeral

/-- The decimal by which a numeral is written. -/
def decimal (numeral : Numeral) (negative : Bool) : Decimal where
  negative := negative
  whole := Nat.toDigits 10 (numeral.digits / Nat.pow 10 numeral.places)
  fraction := numeral.fraction
  whole_ne_nil := Nat.toDigits_ne_nil
  whole_digits _ := isDigit_of_mem_toDigits
  fraction_digits := by
    obtain ⟨_, -, hdigits, -⟩ := numeral.exists_fraction
    exact hdigits

variable (numeral : Numeral) (negative : Bool)

theorem body_decimal : (numeral.decimal negative).body = numeral.text := by
  unfold Decimal.body
  split
  · next hnil => exact (numeral.text_of_whole hnil).symm
  · next hne => exact (numeral.text_of_fraction hne).symm

theorem value_decimal :
    (numeral.decimal negative).value = if negative then -numeral.value else numeral.value := by
  obtain ⟨other, hread, hother⟩ := numeral.read?_text
  rw [← numeral.body_decimal negative, Decimal.read?_body] at hread
  obtain rfl := Option.some.inj hread
  rw [← hother.value_eq]
  rfl

theorem fraction_natural (natural : Nat) : (mk natural 0).fraction = [] := by
  simp [fraction, Nat.mod_one, Nat.toDigits_zero]

theorem text_natural (natural : Nat) : (mk natural 0).text = Nat.toDigits 10 natural := by
  rw [text_of_whole _ (fraction_natural natural), Nat.pow_zero, Nat.div_one]

/-- Without a fraction the value of a numeral is a natural number. -/
theorem value_of_whole {numeral : Numeral} (h : numeral.fraction = []) :
    numeral.value = (numeral.digits / 10 ^ numeral.places : Nat) := by
  obtain ⟨zeros, hvalue, -, -⟩ := numeral.exists_fraction
  rw [h] at hvalue
  have hdivides : 10 ^ numeral.places ∣ numeral.digits :=
    Nat.dvd_of_mod_eq_zero (hvalue.symm.trans (Nat.zero_mul _))
  rw [value, Nat.cast_div hdivides (by positivity), Nat.cast_pow, Nat.cast_ofNat]

end Numeral

namespace Number

variable {x y : Number}

/-! Whole numbers -/

theorem unit_eq : unit = 2 ^ 1074 := by
  unfold unit
  generalize 1074 = exponent
  rfl

theorem valueOf_of_quantaOf {magnitude natural : Nat} (h : quantaOf magnitude = natural * unit) :
    valueOf magnitude = natural := by
  rw [valueOf, h, Nat.cast_mul, mul_div_cancel_right₀ _ (ne_of_gt unit_pos)]

/-- The natural numbers of at most 53 binary digits are numbers. -/
theorem exists_magnitude {natural : Nat} (h : natural < 2 ^ 53) :
    ∃ magnitude < infiniteMagnitude, quantaOf magnitude = natural * unit := by
  by_cases hzero : natural = 0
  · exact ⟨0, by decide, by simp [hzero, quantaOf]⟩
  · have hlog : natural.log2 < 53 := (Nat.log2_lt hzero).mpr h
    have hlow := Nat.log2_self_le hzero
    have hhigh := Nat.lt_log2_self (n := natural)
    generalize natural.log2 = exponent at *
    have hshift : 0 < 2 ^ (52 - exponent) := Nat.two_pow_pos _
    have hdigits : natural * 2 ^ (52 - exponent) < 2 ^ 53 := by
      have hlt := Nat.mul_lt_mul_of_pos_right hhigh hshift
      rwa [← pow_add, show exponent + 1 + (52 - exponent) = 53 by omega] at hlt
    have hnormal : 2 ^ 52 ≤ natural * 2 ^ (52 - exponent) := by
      have hle := Nat.mul_le_mul_right (2 ^ (52 - exponent)) hlow
      rwa [← pow_add, show exponent + (52 - exponent) = 52 by omega] at hle
    have hinfinite : infiniteMagnitude = 2047 * 2 ^ 52 := rfl
    refine ⟨(exponent + 1022) * 2 ^ 52 + natural * 2 ^ (52 - exponent), by omega, ?_⟩
    rw [quantaOf_add (Nat.le_of_lt hdigits) fun _ => hnormal, unit_eq, Nat.mul_assoc, ← pow_add,
      show 52 - exponent + (exponent + 1022) = 1074 by omega]

/-- What is nearest to a natural number is a natural number. -/
theorem Rounds.exists_quantaOf {natural magnitude : Nat} (h : Rounds natural magnitude) :
    ∃ other, quantaOf magnitude = other * unit := by
  rcases Nat.lt_or_ge natural (2 ^ 53) with hsmall | hlarge
  · obtain ⟨exact, hfinite, hexact⟩ := exists_magnitude hsmall
    have hnearest := h.nearest exact (Nat.le_of_lt hfinite)
    rw [valueOf_of_quantaOf hexact, sub_self, abs_zero, abs_nonpos_iff, sub_eq_zero,
      ← valueOf_of_quantaOf hexact, valueOf_strictMono.injective.eq_iff] at hnearest
    exact ⟨natural, hnearest ▸ hexact⟩
  · -- from here on the numbers are one or more apart
    have hquanta : quantaOf (1075 * 2 ^ 52 + 2 ^ 52) = 2 ^ 53 * unit := by
      rw [quantaOf_add (by decide) fun _ => Nat.le_refl _, unit_eq, ← pow_add, ← pow_add]
    have hvalue := valueOf_of_quantaOf hquanta
    have hle : valueOf (1075 * 2 ^ 52 + 2 ^ 52) ≤ natural := by
      rw [hvalue]
      exact_mod_cast hlarge
    have hmagnitude : 1075 * 2 ^ 52 + 2 ^ 52 ≤ magnitude := by
      by_contra hlt
      have hfarther := valueOf_strictMono (not_le.mp hlt)
      have hnearest := h.nearest (1075 * 2 ^ 52 + 2 ^ 52) (by decide)
      rw [distance_of_le hle (Nat.le_of_lt (not_le.mp hlt)),
        distance_of_le hle (Nat.le_refl _)] at hnearest
      linarith
    obtain ⟨exponent, digits, hdigits, hnormal, rfl⟩ := exists_digits magnitude
    refine ⟨digits * 2 ^ (exponent - 1074), ?_⟩
    rw [quantaOf_add (Nat.le_of_lt hdigits) hnormal, unit_eq, Nat.mul_assoc, ← pow_add,
      Nat.sub_add_cancel (by omega)]

theorem quanta_of_value {integer : Int} (h : x.value = integer) :
    x.quanta = integer.natAbs * unit := by
  have hvalue : valueOf x.magnitude = integer.natAbs := by
    rw [← abs_value, h, Nat.cast_natAbs, Int.cast_abs]
  have hquanta := (div_eq_iff (ne_of_gt unit_pos)).mp hvalue
  exact_mod_cast hquanta

theorem isWhole_iff (h : x.isFinite = true) :
    x.isWhole = true ↔ ∃ natural, x.quanta = natural * unit := by
  rw [isWhole, h, Bool.true_and, beq_iff_eq, ← Nat.dvd_iff_mod_eq_zero, dvd_iff_exists_eq_mul_left]

/-! Signs -/

theorem isNaN_of_isFinite (h : x.isFinite = true) : x.isNaN = false := by
  rw [isFinite, decide_eq_true_eq] at h
  exact isNaN_eq_false_iff.mpr (Nat.le_of_lt h)

theorem less_iff (hx : x.isNaN = false) (hy : y.isNaN = false) :
    x.less y = true ↔ x.value < y.value := by
  rw [value_eq_valueAt, value_eq_valueAt, valueAt_strictMono.lt_iff_lt]
  simp [less, hx, hy]

theorem value_zero : zero.value = 0 := by
  rw [value_eq_valueAt, show zero.rank = 0 from by decide]
  simp [valueAt, valueOf_zero]

/-- The sign that is written is that of the value. -/
theorem less_zero (h : x.isNaN = false) : x.less zero = (x.isNegative && x.magnitude != 0) := by
  have hrank : zero.rank = 0 := by decide
  have hnan : zero.isNaN = false := by decide
  rw [Bool.eq_iff_iff, less, h, hnan, hrank, rank]
  cases x.isNegative with
  | false => simp
  | true => simp [Nat.pos_iff_ne_zero]

/-! Text -/

theorem text_decimal (h : x.isFinite = true) :
    x.text = (x.writtenNumeral.decimal (x.less zero)).text := by
  rw [text_eq h, signedText_of_isFinite h, less_zero (isNaN_of_isFinite h), Decimal.text,
    Numeral.body_decimal, Numeral.decimal]
  split
  · rw [String.ofList_cons]
    rfl
  · rfl

theorem writtenNumeral_of_value {integer : Int} (h : x.isFinite = true)
    (hvalue : x.value = integer) : x.writtenNumeral = ⟨integer.natAbs, 0⟩ := by
  have hquanta := quanta_of_value hvalue
  have hunit : 0 < unit := Nat.cast_pos.mp unit_pos
  rw [writtenNumeral, if_pos ((isWhole_iff h).mpr ⟨_, hquanta⟩), hquanta,
    Nat.mul_div_cancel _ hunit]

/-- A number whose value is an integer is written as this integer. -/
theorem text_of_value {integer : Int} (h : x.isFinite = true) (hvalue : x.value = integer) :
    x.text = toString integer := by
  have hsign : x.less zero = true ↔ integer < 0 := by
    rw [less_iff (isNaN_of_isFinite h) (by decide), hvalue, value_zero]
    exact Int.cast_lt_zero
  rw [text_eq h, signedText_of_isFinite h, ← less_zero (isNaN_of_isFinite h),
    writtenNumeral_of_value h hvalue, Numeral.text_natural, ← Nat.repr_eq_ofList_toDigits,
    Int.toString_eq_repr, Int.repr_eq_if]
  by_cases hnegative : integer < 0
  · rw [if_pos (hsign.mpr hnegative), if_neg (not_le.mpr hnegative),
      show (-integer).toNat = integer.natAbs by omega]
  · rw [if_neg (mt hsign.mp hnegative), if_pos (not_lt.mp hnegative),
      show integer.toNat = integer.natAbs by omega]

/-- A natural number of at most 53 binary digits is read and written without change. -/
theorem text_of_natural {natural : Nat} (h : natural < 2 ^ 53) :
    (Numeral.mk natural 0).number.text = String.ofList (Nat.toDigits 10 natural) := by
  obtain ⟨magnitude, hfinite, hquanta⟩ := exists_magnitude h
  have hmagnitude : (Numeral.mk natural 0).magnitude = magnitude := by
    rw [Numeral.magnitude, ← hquanta]
    exact nearestMagnitude_quantaOf hfinite
  obtain ⟨hnumber, hsign⟩ := magnitude_ofMagnitude (Nat.le_of_lt hfinite) false
  have hvalue : (ofMagnitude false magnitude).value = (natural : Int) := by
    rw [value, hsign, if_neg Bool.false_ne_true, hnumber, valueOf_of_quantaOf hquanta,
      Int.cast_natCast]
  rw [Numeral.number, hmagnitude, ← Nat.repr_eq_ofList_toDigits]
  exact text_of_value (by rw [isFinite, hnumber, decide_eq_true hfinite]) hvalue

/-- Without a fraction the value that is written is an integer, and so is the nearest one. -/
theorem exists_value_of_whole (h : x.isFinite = true) (hwhole : x.writtenNumeral.fraction = []) :
    ∃ integer : Int, x.value = integer := by
  have hrounds := x.writtenNumeral.magnitude_rounds
  rw [Numeral.value_of_whole hwhole, magnitude_writtenNumeral h] at hrounds
  obtain ⟨natural, hquanta⟩ := hrounds.exists_quantaOf
  have hvalue := valueOf_of_quantaOf hquanta
  unfold value
  split
  · exact ⟨-natural, by rw [hvalue, Int.cast_neg, Int.cast_natCast]⟩
  · exact ⟨natural, by rw [hvalue, Int.cast_natCast]⟩

/-- A finite number is nearest to the decimal by which it is written. -/
theorem isNearest_decimal (h : x.isFinite = true) :
    x.IsNearest (x.writtenNumeral.decimal (x.less zero)).value := by
  have hrounds := x.writtenNumeral.magnitude_rounds
  rw [magnitude_writtenNumeral h] at hrounds
  rw [Numeral.value_decimal]
  apply IsNearest.of_rounds hrounds x.writtenNumeral.value_nonneg
  intro hne
  rw [less_zero (isNaN_of_isFinite h), bne_iff_ne.mpr hne, Bool.and_true]

/-! Infinite numbers -/

theorem text_infinite (h : x.isInfinite = true) :
    x.text = if x.isNegative then "-inf" else "inf" := by
  have hmagnitude : x.magnitude = infiniteMagnitude := by simpa [isInfinite] using h
  have hfinite : x.isFinite = false := by simp [isFinite, hmagnitude]
  have hnan : x.isNaN = false := by simp [isNaN, hmagnitude]
  rw [text, isWhole, hfinite, Bool.false_and, if_neg Bool.false_ne_true, shortestText, signedText,
    hnan, h]
  rfl

theorem finite_or_infinite (h : x.isNaN = false) : x.isFinite = true ∨ x.isInfinite = true := by
  rw [isNaN_eq_false_iff] at h
  rcases Nat.lt_or_eq_of_le h with hlt | heq
  · exact .inl (by simpa [isFinite] using hlt)
  · exact .inr (by simpa [isInfinite] using heq)

/-- The text of an infinite number is no decimal. -/
theorem text_infinite_ne (h : x.isInfinite = true) (decimal : Decimal) :
    decimal.text ≠ x.text := by
  intro htext
  have hmem : 'i' ∈ decimal.text.toList := by
    rw [htext, text_infinite h]
    split <;> decide
  simpa using Decimal.mem_text hmem

/-! Equal numbers -/

/-- Equal numbers are one number, or both are zeros. -/
theorem eq_or_magnitude_eq_zero (h : x.equal y = true) :
    x = y ∨ x.magnitude = 0 ∧ y.magnitude = 0 := by
  rw [equal, Bool.and_eq_true, beq_iff_eq, rank, rank] at h
  by_cases hzero : x.magnitude = 0 ∧ y.magnitude = 0
  · exact .inr hzero
  · left
    cases hsign : x.isNegative <;> cases hsign' : y.isNegative <;>
      simp only [hsign, hsign', if_true, Bool.false_eq_true, if_false] at h
    · exact eq_of_magnitude_eq (hsign.trans hsign'.symm) (by omega)
    · omega
    · omega
    · exact eq_of_magnitude_eq (hsign.trans hsign'.symm) (by omega)

theorem text_of_magnitude_eq_zero (h : x.magnitude = 0) : x.text = "0" := by
  have hfinite : x.isFinite = true := by
    rw [isFinite, h]
    rfl
  have hvalue : x.value = (0 : Int) := by
    rw [Int.cast_zero, ← abs_eq_zero, abs_value, h, valueOf_zero]
  exact text_of_value hfinite hvalue

theorem text_eq_of_equal (h : x.equal y = true) : x.text = y.text := by
  rcases eq_or_magnitude_eq_zero h with rfl | ⟨hzero, hzero'⟩
  · rfl
  · rw [text_of_magnitude_eq_zero hzero, text_of_magnitude_eq_zero hzero']

theorem equal_of_text_eq (hx : x.isNaN = false) (hy : y.isNaN = false)
    (h : x.text = y.text) : x.equal y = true := by
  rcases finite_or_infinite hx with hfinite | hinfinite <;>
    rcases finite_or_infinite hy with hfinite' | hinfinite'
  · have hdecimal := Decimal.value_eq_of_text_eq (text_decimal hfinite ▸ text_decimal hfinite' ▸ h)
    exact (isNearest_decimal hfinite).equal (hdecimal ▸ isNearest_decimal hfinite')
  · exact absurd (text_decimal hfinite ▸ h) (text_infinite_ne hinfinite' _)
  · exact absurd (text_decimal hfinite' ▸ h.symm) (text_infinite_ne hinfinite _)
  · have hsign : x.isNegative = y.isNegative := by
      rw [text_infinite hinfinite, text_infinite hinfinite'] at h
      revert h
      cases x.isNegative <;> cases y.isNegative <;> decide
    rw [isInfinite, beq_iff_eq] at hinfinite hinfinite'
    rw [eq_of_magnitude_eq hsign (hinfinite.trans hinfinite'.symm), equal_iff hy hy]

/-- A finite number is written as a plain decimal to which it and its equals are nearest. The
decimal is signed if the number is less than zero, it is that of an integer if the number is one,
and else it has a fraction. Equal numbers alone are written alike. -/
theorem text_faithful (h : x.isNaN = false) :
    (x.isFinite = true → ∃ decimal : Decimal, x.text = decimal.text ∧
      (∀ y : Number, y.IsNearest decimal.value ↔ y.equal x = true) ∧
      (decimal.negative = true ↔ x.less zero = true) ∧
      Numeral.withoutLeadingZeros decimal.whole = decimal.whole ∧
      (∀ integer : Int, x.value = integer → x.text = toString integer ∧ decimal.fraction = []) ∧
      ((∀ integer : Int, x.value ≠ integer) → decimal.fraction ≠ [])) ∧
    ∀ y : Number, y.isNaN = false → (x.text = y.text ↔ x.equal y = true) := by
  constructor
  · intro hfinite
    refine ⟨x.writtenNumeral.decimal (x.less zero), text_decimal hfinite,
      fun y => (isNearest_decimal hfinite).iff_equal, Iff.rfl,
      Numeral.withoutLeadingZeros_toDigits _, fun integer hvalue => ⟨?_, ?_⟩, ?_⟩
    · exact text_of_value hfinite hvalue
    · rw [Numeral.decimal, writtenNumeral_of_value hfinite hvalue]
      exact Numeral.fraction_natural _
    · intro hfraction hwhole
      obtain ⟨integer, hvalue⟩ := exists_value_of_whole hfinite hwhole
      exact hfraction integer hvalue
  · exact fun y hy => ⟨equal_of_text_eq h hy, text_eq_of_equal⟩

theorem text_of_hundred_sextillions : ∃ x : Number,
    x.isFinite = true ∧ x.value = (99999999999999991611392 : Int) ∧
      x.text = "99999999999999991611392" ∧ x.shortestText = "100000000000000000000000" ∧
      ∃ y : Number, y.isNaN = false ∧ y.text = "inf" ∧ x.equal y ≠ true := by
  have hfinite : (Number.mk 0x44B52D02C7E14AF6).isFinite = true := by decide
  have hquanta : quantaOf (Number.mk 0x44B52D02C7E14AF6).magnitude =
      99999999999999991611392 * unit := by decide +kernel
  have hvalue : (Number.mk 0x44B52D02C7E14AF6).value = (99999999999999991611392 : Int) := by
    rw [value, if_neg (by decide), valueOf_of_quantaOf hquanta]
    norm_num
  obtain ⟨hdecimal, hequal⟩ := text_faithful (isNaN_of_isFinite hfinite)
  obtain ⟨decimal, -, -, -, -, hinteger, -⟩ := hdecimal hfinite
  obtain ⟨htext, -⟩ := hinteger _ hvalue
  have hinfinite : (infinity false).text = "inf" := by decide +kernel
  refine ⟨_, hfinite, hvalue, htext.trans (by decide +kernel), by decide +kernel,
    infinity false, by decide, hinfinite, fun hsame => ?_⟩
  have halike := (hequal (infinity false) (by decide)).mpr hsame
  rw [htext, hinfinite] at halike
  exact absurd halike (by decide +kernel)

end Number

end Treewalk
