import Treewalk.Number.Numeral

/-!
The text of numbers. The shortest numeral of a number is the one with the fewest digits that
stands for it, and of those the one nearest to it. It is found by trying one digit, two digits and
so on: if any numeral of a length stands for a number, then one of the two around the number does.
-/

namespace Treewalk.Number

/-- The digits before the point, of which a number below one has none. -/
def wholeWidth (x : Number) : Nat :=
  if x.quanta < unit then 0 else (Nat.toDigits 10 (x.quanta / unit)).length

/-- How often a positive number of quanta can be multiplied by ten, at most `steps` times, and
remain below one tenth. -/
def zerosWithin : Nat → Nat → Nat
  | 0, _ => 0
  | steps + 1, quanta => if unit ≤ quanta * 10 then 0 else zerosWithin steps (quanta * 10) + 1

/-- The zeros between the point and the first other digit. No number has more than those of a
quantum, which are 323. -/
def leadingZeros (x : Number) : Nat :=
  if x.quanta < unit then zerosWithin 323 x.quanta else 0

/-- The better of the two numerals of a length around a number among those that stand for it: the
nearer one, or the upper one if both are equally near. -/
def numeralOfLength? (x : Number) (length : Nat) : Option Numeral :=
  let places := length + x.leadingZeros - x.wholeWidth
  let step := Nat.pow 10 (x.wholeWidth - length)
  let exact := x.quanta * Nat.pow 10 places
  let below := exact / (unit * step) * step
  let above := below + step
  let candidates :=
    if exact - below * unit < above * unit - exact then [below, above] else [above, below]
  let digits? := candidates.find? fun digits => (Numeral.mk digits places).magnitude == x.magnitude
  digits?.map fun digits => ⟨digits, places⟩

/-- The numeral that writes a number exactly. -/
def exactNumeral (x : Number) : Numeral :=
  ⟨x.quanta * Nat.pow 5 1074, 1074⟩

/-- The shortest numeral of a finite number, without its sign. Seventeen digits are enough for
every number, so the exact numeral is never needed. -/
def shortestNumeral (x : Number) : Numeral :=
  ((List.range' 1 17).findSome? x.numeralOfLength?).getD x.exactNumeral

/-- The text of a number of which a finite one is written by the given numeral. -/
def signedText (negative : Bool) (x : Number) (numeral : Numeral) : String :=
  if x.isNaN then "NaN"
  else
    let text := if x.isInfinite then "inf" else String.ofList numeral.text
    if negative then "-" ++ text else text

/-- The shortest text of a number, with the sign of a zero. -/
def shortestText (x : Number) : String :=
  signedText x.isNegative x x.shortestNumeral

/-- The text of a number as a value: a whole number has all its digits, any other the shortest
text, and neither zero has a sign. -/
def text (x : Number) : String :=
  if x.isWhole then signedText (x.isNegative && x.magnitude != 0) x ⟨x.quanta / unit, 0⟩
  else x.shortestText

end Treewalk.Number
