/-!
# Rounding to nearest

`roundDiv` divides two natural numbers and rounds the quotient to the nearest whole number, a half
to the even neighbour. `nearest53` rounds a quotient to the nearest number with at most 53
significant bits, which is the precision of binary64.
-/

namespace StatusBadges.Binary64

/-- The quotient `num / den` rounded to the nearest whole number, a half to the even one. -/
def roundDiv (num den : Nat) : Nat :=
  let q := num / den
  let r := num % den
  if 2 * r < den then q
  else if den < 2 * r then q + 1
  else if q % 2 = 0 then q
  else q + 1

/-- A whole quotient is not changed by rounding. -/
theorem roundDiv_mul_self (q : Nat) {den : Nat} (h : 0 < den) : roundDiv (q * den) den = q := by
  simp [roundDiv, Nat.mul_div_cancel q h, h]

/-- Rounding moves a quotient by at most half a unit. -/
theorem roundDiv_bounds (num : Nat) {den : Nat} (h : 0 < den) :
    2 * num ≤ (2 * roundDiv num den + 1) * den ∧ 2 * roundDiv num den * den ≤ 2 * num + den := by
  have hd := Nat.div_add_mod num den
  have hr := Nat.mod_lt num h
  simp only [roundDiv]
  generalize num / den = q at *
  generalize num % den = r at *
  subst hd
  simp only [Nat.mul_add, Nat.add_mul, Nat.one_mul, Nat.mul_comm den q]
  split
  · constructor
    · simp only [Nat.mul_assoc]; omega
    · simp only [Nat.mul_assoc]; omega
  · split
    · constructor <;> simp only [Nat.mul_add, Nat.add_mul, Nat.mul_assoc, Nat.one_mul] <;> omega
    · split
      · constructor <;> simp only [Nat.mul_assoc] <;> omega
      · constructor <;> simp only [Nat.mul_add, Nat.add_mul, Nat.mul_assoc, Nat.one_mul] <;> omega

/-- The place of the last kept bit when `num / den` is cut to 53 significant bits. -/
def lastPlace (num den : Nat) : Nat := (num / den).log2 - 52

/-- The number with at most 53 significant bits nearest to `num / den`, a half to the one whose
last kept bit is zero. Whole numbers are the finest steps. -/
def nearest53 (num den : Nat) : Nat :=
  roundDiv num (den * Nat.pow 2 (lastPlace num den)) * Nat.pow 2 (lastPlace num den)

end StatusBadges.Binary64
