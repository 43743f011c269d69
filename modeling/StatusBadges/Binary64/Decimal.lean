import StatusBadges.Binary64.Basic
import StatusBadges.Text.Numeral
/-!
# Decimal text of binary64 numbers

`fixed1` writes a number with one decimal, rounded from its exact value. `shortest` finds the
fewest digits that are read back as the same magnitude, and `ofDecimal` reads a decimal text.
-/

open StatusBadges.Text

namespace StatusBadges.Binary64

/-! ## One decimal -/

/-- A magnitude in tenths, rounded from the exact value, a half to the even tenth. -/
def tenths (units : Nat) : Nat := roundDiv (units * 10) one

/-- A number with one decimal. The sign of a negative number stays when it is rounded to zero. -/
def fixed1 : Binary64 → List Char
  | .finite negative units =>
    (if negative then ['-'] else []) ++
      numeral (tenths units / 10) ++ '.' :: numeral (tenths units % 10)
  | .infinite negative => (if negative then ['-'] else []) ++ ['i', 'n', 'f']
  | .nan => ['N', 'a', 'N']

/-! ## Shortest digits -/

/-- Decimal fractions are searched on the grid of multiples of `10 ^ -gridPlaces`. -/
def gridPlaces : Nat := 350

/-- Whether `point * 10 ^ -gridPlaces` is read back as this magnitude. -/
def readsBack (units point : Nat) : Bool :=
  nearest53 (point * one) (Nat.pow 10 gridPlaces) == units

/-- The multiple of `step` next to the exact value `scaled / one` that is read back as `units`, if
any is. Of two the nearer is taken, and of two equally near ones the even multiple. -/
def neighbour? (units scaled step : Nat) : Option Nat :=
  let lower := scaled / one / step * step
  let upper := lower + step
  let lowerGap := scaled - lower * one
  let upperGap := upper * one - scaled
  match readsBack units lower, readsBack units upper with
  | true, true =>
    if lowerGap < upperGap then some lower
    else if upperGap < lowerGap then some upper
    else if lower / step % 2 = 0 then some lower
    else some upper
  | true, false => some lower
  | false, true => some upper
  | false, false => none

/-- The first hit of `neighbour?` on grids of `count` digits, then one digit more, and so on. -/
def searchDigits (units scaled places : Nat) : (tries count : Nat) → Nat
  | 0, _ => scaled / one
  | tries + 1, count =>
    match neighbour? units scaled (Nat.pow 10 (places - count)) with
    | some point => point
    | none => searchDigits units scaled places tries (count + 1)

/-- The decimal point on the grid with the fewest digits that is read back as `units`. Seventeen
digits always suffice. -/
def shortestPoint (units : Nat) : Nat :=
  let scaled := units * Nat.pow 10 gridPlaces
  searchDigits units scaled (numeral (scaled / one)).length 17 1

/-- The significant digits of a positive magnitude, without zeros at the end, and the power of ten
of the first one. -/
def shortest (units : Nat) : List Char × Int :=
  let digits := numeral (shortestPoint units)
  ((digits.reverse.dropWhile (· == '0')).reverse, (digits.length : Int) - 1 - gridPlaces)

/-! ## Reading -/

/-- The number nearest to the decimal with these digits before and after the point. -/
def ofDecimal (whole fraction : List Char) : Binary64 :=
  ofRatio (numeralValue (whole ++ fraction)) (Nat.pow 10 fraction.length)

end StatusBadges.Binary64
