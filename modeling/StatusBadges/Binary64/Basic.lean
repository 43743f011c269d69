import StatusBadges.Binary64.Rounding
/-!
# Binary64 numbers

The magnitude of a finite number is counted in units of `2 ^ -1074`, the least positive value, so
that order and exact arithmetic are those of natural numbers. A result of arithmetic is the exact
result rounded by `nearest53`.
-/

namespace StatusBadges

/-- A binary64 number: finite with its sign and its magnitude in units of `2 ^ -1074`, infinite
with its sign, or not a number. -/
inductive Binary64 where
  /-- A finite number. Zero has a sign too. -/
  | finite (negative : Bool) (units : Nat)
  | infinite (negative : Bool)
  | nan
  deriving DecidableEq, Repr

namespace Binary64

/-- The number one, in units. -/
def one : Nat := Nat.pow 2 1074

theorem one_pos : 0 < one := by
  unfold one
  apply Nat.two_pow_pos

/-! ## Magnitudes -/

def unitsOfNat (n : Nat) : Nat := nearest53 (n * one) 1

def unitsDiv (a b : Nat) : Nat := nearest53 (a * one) b

def unitsMul (a b : Nat) : Nat := nearest53 (a * b) one

/-- The number with these units, or infinity when they exceed every finite number. -/
def ofUnits (negative : Bool) (units : Nat) : Binary64 :=
  if units < Nat.pow 2 2098 then .finite negative units else .infinite negative

/-- The number nearest to `num / den`. -/
def ofRatio (num den : Nat) : Binary64 := ofUnits false (nearest53 (num * one) den)

/-! ## Order -/

/-- Whether the number is at least the whole number `n`. No order holds for what is no number. -/
def atLeast (n : Nat) : Binary64 → Bool
  | .finite false units => n * one ≤ units
  | .finite true units => n = 0 && units = 0
  | .infinite negative => !negative
  | .nan => false

/-! ## Interchange format -/

/-- The number that 64 bits stand for: a sign, eleven bits of exponent, 52 bits of fraction. -/
def ofBits (bits : UInt64) : Binary64 :=
  let n := bits.toNat
  let negative := n / Nat.pow 2 63 = 1
  let exponent := n / Nat.pow 2 52 % Nat.pow 2 11
  let fraction := n % Nat.pow 2 52
  if exponent = 0 then .finite negative fraction
  else if exponent < 2047 then
    .finite negative ((Nat.pow 2 52 + fraction) * Nat.pow 2 (exponent - 1))
  else if fraction = 0 then .infinite negative
  else .nan

/-- The exponent and fraction bits of a magnitude. -/
def magnitudeBits (units : Nat) : Nat :=
  if units < Nat.pow 2 52 then units
  else (units.log2 - 52) * Nat.pow 2 52 + units / Nat.pow 2 (units.log2 - 52)

/-- The 64 bits of a number. Of the many patterns for what is no number this is the quiet one
without payload. -/
def toBits : Binary64 → UInt64
  | .finite negative units =>
    UInt64.ofNat ((if negative then Nat.pow 2 63 else 0) + magnitudeBits units)
  | .infinite negative =>
    UInt64.ofNat ((if negative then Nat.pow 2 63 else 0) + 2047 * Nat.pow 2 52)
  | .nan => 0x7FF8000000000000

end Binary64
end StatusBadges
