import Treewalk.Number.Basic

/-!
Decimal numerals: digits with an optional fraction, without sign and exponent. A numeral stands
for the number nearest to its value.
-/

namespace Treewalk

/-- The numeral whose value is `digits / 10 ^ places`. -/
structure Numeral where
  digits : Nat
  places : Nat
  deriving DecidableEq

namespace Numeral

/-- The magnitude of the number for which a numeral stands. -/
def magnitude (numeral : Numeral) : Nat :=
  Number.nearestMagnitude (numeral.digits * Number.unit) (Nat.pow 10 numeral.places)

def number (numeral : Numeral) : Number :=
  Number.ofMagnitude false numeral.magnitude

/-! Text -/

/-- The digits after the point, as many as there are places, without the zeros that end them. -/
def fraction (numeral : Numeral) : List Char :=
  let digits := Nat.toDigits 10 (numeral.digits % Nat.pow 10 numeral.places)
  let padded := List.replicate (numeral.places - digits.length) '0' ++ digits
  (padded.reverse.dropWhile (· == '0')).reverse

/-- The digits of a numeral; the point is written only before a fraction. -/
def text (numeral : Numeral) : List Char :=
  let whole := Nat.toDigits 10 (numeral.digits / Nat.pow 10 numeral.places)
  match numeral.fraction with
  | [] => whole
  | fraction => whole ++ '.' :: fraction

/-! Reading -/

/-- The natural number of a row of decimal digits. -/
def ofDigits (digits : List Char) : Nat :=
  digits.foldl (fun value digit => value * 10 + (digit.toNat - '0'.toNat)) 0

/-- Reads digits, optionally followed by a point and more digits. -/
def read? (text : List Char) : Option Numeral :=
  let whole := text.takeWhile Char.isDigit
  if whole.isEmpty then none
  else
    match text.dropWhile Char.isDigit with
    | [] => some ⟨ofDigits whole, 0⟩
    | '.' :: fraction =>
        if fraction.isEmpty || !fraction.all Char.isDigit then none
        else some ⟨ofDigits (whole ++ fraction), fraction.length⟩
    | _ => none

end Numeral

end Treewalk
