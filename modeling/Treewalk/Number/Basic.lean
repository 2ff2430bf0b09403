/-!
Double-precision numbers, known by their sixty-four bits.

A finite number is a whole number of quanta, a quantum being `2 ^ -1074`, the least positive
number. Sums, products and quotients are therefore exact ratios of natural numbers of quanta,
and `nearestMagnitude` rounds such a ratio once: to the nearest number, of two equally near ones
to the even one, and to infinity past the largest.
-/

namespace Treewalk

/-- A double-precision number. Bits above the infinite magnitude are no number at all; they are
kept as they came. -/
structure Number where
  bits : UInt64
  deriving DecidableEq

namespace Number

/-- The bits below the sign. They count the numbers from zero upwards, so they order the numbers
of one sign. -/
def magnitude (x : Number) : Nat :=
  x.bits.toNat % Nat.pow 2 63

def isNegative (x : Number) : Bool :=
  Nat.pow 2 63 ≤ x.bits.toNat

def infiniteMagnitude : Nat :=
  2047 * Nat.pow 2 52

def isNaN (x : Number) : Bool :=
  infiniteMagnitude < x.magnitude

def isInfinite (x : Number) : Bool :=
  x.magnitude == infiniteMagnitude

def isFinite (x : Number) : Bool :=
  x.magnitude < infiniteMagnitude

def ofMagnitude (negative : Bool) (magnitude : Nat) : Number :=
  ⟨UInt64.ofNat (if negative then Nat.pow 2 63 + magnitude else magnitude)⟩

def zero : Number :=
  ofMagnitude false 0

def infinity (negative : Bool) : Number :=
  ofMagnitude negative infiniteMagnitude

def nan : Number :=
  ofMagnitude false (infiniteMagnitude + Nat.pow 2 51)

/-! The whole number of quanta in a finite number, without its sign. -/

/-- The quanta that make one. -/
def unit : Nat :=
  Nat.pow 2 1074

/-- The power of two by which the quanta of a magnitude are spaced. The numbers below
`2 ^ 53` quanta are one quantum apart; from there on the spacing doubles every `2 ^ 52` numbers. -/
def spacing (magnitude : Nat) : Nat :=
  magnitude / Nat.pow 2 52 - 1

def quantaOf (magnitude : Nat) : Nat :=
  (magnitude - spacing magnitude * Nat.pow 2 52) * Nat.pow 2 (spacing magnitude)

def quanta (x : Number) : Nat :=
  quantaOf x.magnitude

def signedQuanta (x : Number) : Int :=
  if x.isNegative then -x.quanta else x.quanta

/-- Whether a finite number has no fractional part. -/
def isWhole (x : Number) : Bool :=
  x.isFinite && x.quanta % unit == 0

/-! Rounding -/

/-- The natural number nearest to a ratio, of two equally near ones the even one. -/
def nearestNat (numerator denominator : Nat) : Nat :=
  let quotient := numerator / denominator
  let twice := 2 * (numerator % denominator)
  if denominator < twice || (twice == denominator && quotient % 2 == 1) then quotient + 1
  else quotient

/-- The magnitude of the number nearest to a ratio of quanta. The ratio has `exponent + 53`
binary digits before its point, or at most 53 if the exponent is zero; the last `exponent` of
them are rounded away. Rounding up to a power of two carries into the next spacing by itself. -/
def nearestMagnitude (numerator denominator : Nat) : Nat :=
  let exponent := (numerator / denominator).log2 - 52
  min infiniteMagnitude
    (exponent * Nat.pow 2 52 + nearestNat numerator (denominator * Nat.pow 2 exponent))

/-- The number nearest to a ratio of natural numbers. -/
def ofRatio (numerator denominator : Nat) : Number :=
  ofMagnitude false (nearestMagnitude (numerator * unit) denominator)

/-! Arithmetic -/

def neg (x : Number) : Number :=
  ⟨x.bits ^^^ 0x8000000000000000⟩

/-- The sum. A sum of quanta that cancels is a positive zero, unless both summands are negative
zeros. -/
def add (x y : Number) : Number :=
  if x.isNaN || y.isNaN then nan
  else if x.isInfinite && y.isInfinite && x.isNegative != y.isNegative then nan
  else if x.isInfinite then x
  else if y.isInfinite then y
  else
    let total := x.signedQuanta + y.signedQuanta
    if total = 0 then ofMagnitude (x.isNegative && y.isNegative) 0
    else ofMagnitude (total < 0) (nearestMagnitude total.natAbs 1)

def sub (x y : Number) : Number :=
  x.add y.neg

def mul (x y : Number) : Number :=
  let negative := x.isNegative != y.isNegative
  if x.isNaN || y.isNaN then nan
  else if x.isInfinite || y.isInfinite then
    if x.magnitude == 0 || y.magnitude == 0 then nan else infinity negative
  else ofMagnitude negative (nearestMagnitude (x.quanta * y.quanta) unit)

def div (x y : Number) : Number :=
  let negative := x.isNegative != y.isNegative
  if x.isNaN || y.isNaN || (x.isInfinite && y.isInfinite) then nan
  else if x.isInfinite then infinity negative
  else if y.isInfinite then ofMagnitude negative 0
  else if y.magnitude == 0 then if x.magnitude == 0 then nan else infinity negative
  else ofMagnitude negative (nearestMagnitude (x.quanta * unit) y.quanta)

/-! Comparison. What is no number compares with nothing, itself included, and the two zeros are
equal. -/

/-- The magnitude with the sign of the number: it orders all numbers. -/
def rank (x : Number) : Int :=
  if x.isNegative then -x.magnitude else x.magnitude

def equal (x y : Number) : Bool :=
  !x.isNaN && !y.isNaN && x.rank == y.rank

def less (x y : Number) : Bool :=
  !x.isNaN && !y.isNaN && x.rank < y.rank

def lessOrEqual (x y : Number) : Bool :=
  !x.isNaN && !y.isNaN && x.rank ≤ y.rank

end Number

end Treewalk
