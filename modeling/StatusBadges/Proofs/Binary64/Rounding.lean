import Mathlib.Algebra.Order.Field.Basic
import Mathlib.Algebra.Order.Ring.Abs
import Mathlib.Data.Nat.Cast.Order.Field
import Mathlib.Data.Rat.Cast.Order
import Mathlib.Tactic.FieldSimp
import Mathlib.Tactic.Linarith
import Mathlib.Tactic.Ring
import StatusBadges.Binary64.Basic

/-!
# Nearest numbers

The numbers of at most 53 significant bits are a grid that is coarser for greater numbers. Rounding
to it takes the nearest number of the grid, and of two equally near ones the even one
(`nearest_nearest53`), which leaves no choice (`Nearest.unique`). The binary64 number nearest to an
exact value is found on this grid in units, and is infinite where the grid goes on behind the
greatest finite number (`nearestTo_ofRatio`).
-/

namespace StatusBadges.Binary64

/-! ## Nearest in a grid -/

/-- Of the numbers in a grid none is nearer to `x`. Where another one is equally near, `n` is an
even multiple of the gap between the two. -/
structure Nearest (grid : ℕ → Prop) (x : ℚ) (n : ℕ) : Prop where
  mem : grid n
  le : ∀ k, grid k → |(n : ℚ) - x| ≤ |(k : ℚ) - x|
  even : ∀ k, grid k → k ≠ n → |(k : ℚ) - x| = |(n : ℚ) - x| → 2 * ((k : ℤ) - n) ∣ n

/-- **No two numbers of a grid are nearest.** -/
theorem Nearest.unique {grid : ℕ → Prop} {x : ℚ} {m n : ℕ} (hm : Nearest grid x m)
    (hn : Nearest grid x n) : m = n := by
  by_contra hne
  have htie : |(m : ℚ) - x| = |(n : ℚ) - x| := le_antisymm (hm.le n hn.mem) (hn.le m hm.mem)
  have heven := hn.even m hm.mem hne htie
  have heven' := hm.even n hn.mem (Ne.symm hne) htie.symm
  -- Twice the gap divides both numbers, and so the gap itself.
  have hflip : 2 * ((m : ℤ) - n) ∣ m := by
    rw [← dvd_neg]
    have hneg : 2 * ((m : ℤ) - n) = -(2 * ((n : ℤ) - m)) := by ring
    rw [hneg, neg_dvd, dvd_neg]
    exact heven'
  obtain ⟨c, hc⟩ := dvd_sub hflip heven
  have hgap : (m : ℤ) - n ≠ 0 := sub_ne_zero.2 (by exact_mod_cast hne)
  have hone : 1 = 2 * c := by
    apply mul_left_cancel₀ hgap
    linarith
  omega

/-! ## Whole numbers -/

section Whole

variable {num den : ℕ}

theorem abs_roundDiv_sub_le (num : ℕ) (h : 0 < den) :
    |(roundDiv num den : ℚ) - num / den| ≤ 1 / 2 := by
  have hden : (0 : ℚ) < den := by exact_mod_cast h
  obtain ⟨hlow, hhigh⟩ := roundDiv_bounds num h
  have hlow' : 2 * (num : ℚ) ≤ (2 * roundDiv num den + 1) * den := by exact_mod_cast hlow
  have hhigh' : 2 * (roundDiv num den : ℚ) * den ≤ 2 * num + den := by exact_mod_cast hhigh
  have hquotient : (num : ℚ) / den * den = num := by field_simp
  rw [abs_le]
  constructor
  · nlinarith
  · nlinarith

theorem roundDiv_cases (num den : ℕ) :
    roundDiv num den = num / den ∨ roundDiv num den = num / den + 1 := by
  simp only [roundDiv]
  split_ifs <;> simp

/-- How far off a rounded quotient is, in parts of the divisor: the remainder, or what it lacks. -/
theorem roundDiv_sub_mul (num : ℕ) (h : 0 < den) :
    ((roundDiv num den : ℚ) - num / den) * den = -(num % den : ℕ) ∨
      ((roundDiv num den : ℚ) - num / den) * den = den - (num % den : ℕ) := by
  have hden : (den : ℚ) ≠ 0 := by exact_mod_cast h.ne'
  have hparts : (num : ℚ) = den * (num / den : ℕ) + (num % den : ℕ) := by
    exact_mod_cast (Nat.div_add_mod num den).symm
  rw [sub_mul, div_mul_cancel₀ _ hden]
  rcases roundDiv_cases num den with hdown | hup
  · left
    rw [hdown]
    linarith
  · right
    rw [hup]
    push_cast
    linarith

/-- A quotient in the middle between two whole numbers is rounded to the even one. -/
theorem even_roundDiv (h : 0 < den) (hhalf : |(roundDiv num den : ℚ) - num / den| = 1 / 2) :
    Even (roundDiv num den) := by
  have hden : (0 : ℚ) < den := by exact_mod_cast h
  have hrest : ((num % den : ℕ) : ℚ) < den := by exact_mod_cast Nat.mod_lt num h
  have hoff : |((roundDiv num den : ℚ) - num / den) * den| = den / 2 := by
    rw [abs_mul, hhalf, abs_of_pos hden]
    ring
  have hdouble : 2 * ((num % den : ℕ) : ℚ) = den := by
    rcases roundDiv_sub_mul num h with hdown | hup
    · rw [hdown, abs_neg, abs_of_nonneg (Nat.cast_nonneg _)] at hoff
      linarith
    · rw [hup, abs_of_pos (sub_pos.2 hrest)] at hoff
      linarith
  have hremainder : 2 * (num % den) = den := by exact_mod_cast hdouble
  unfold roundDiv
  simp only [hremainder, lt_irrefl, if_false]
  split
  · next heven => exact Nat.even_iff.2 heven
  · next hodd => exact Nat.even_iff.2 (by omega)

/-- A number at most a half away is a nearest whole number, and the even one of two. -/
theorem nearest_of_abs_le {x : ℚ} {n : ℕ} (hle : |(n : ℚ) - x| ≤ 1 / 2)
    (heven : |(n : ℚ) - x| = 1 / 2 → Even n) : Nearest (fun _ => True) x n := by
  have hfar {k : ℕ} (hk : k ≠ n) : 1 ≤ |(k : ℚ) - n| := by
    have hgap : (1 : ℤ) ≤ |(k : ℤ) - n| :=
      Int.one_le_abs (sub_ne_zero.2 (by exact_mod_cast hk))
    exact_mod_cast hgap
  have hsum (k : ℕ) : |(k : ℚ) - n| ≤ |(k : ℚ) - x| + |(n : ℚ) - x| := by
    have htriangle := abs_sub_le (k : ℚ) x n
    rwa [abs_sub_comm x (n : ℚ)] at htriangle
  refine ⟨trivial, ?_, ?_⟩
  · intro k _
    by_cases hk : k = n
    · rw [hk]
    · linarith [hfar hk, hsum k]
  · intro k _ hk htie
    have hgap : |(k : ℚ) - n| = 1 := le_antisymm (by linarith [hsum k]) (hfar hk)
    have hhalf : |(n : ℚ) - x| = 1 / 2 := by linarith [hsum k]
    have hgap' : |(k : ℤ) - n| = 1 := by exact_mod_cast hgap
    obtain ⟨m, hm⟩ := heven hhalf
    have htwo : (2 : ℤ) ∣ n := ⟨m, by rw [hm]; push_cast; ring⟩
    rcases (abs_eq (by norm_num)).1 hgap' with hone | hone
    · rw [hone, mul_one]
      exact htwo
    · rw [hone, mul_neg, mul_one, neg_dvd]
      exact htwo

theorem nearest_roundDiv (num : ℕ) (h : 0 < den) :
    Nearest (fun _ => True) ((num : ℚ) / den) (roundDiv num den) :=
  nearest_of_abs_le (abs_roundDiv_sub_le num h) (even_roundDiv h)

end Whole

/-- A nearest whole number is a nearest multiple when all is scaled. -/
theorem Nearest.scaled {x : ℚ} {n g : ℕ} (hg : 0 < g) (h : Nearest (fun _ => True) x n) :
    Nearest (g ∣ ·) (x * g) (n * g) := by
  have hg' : (0 : ℚ) < g := by exact_mod_cast hg
  have hscale (k : ℕ) : |((k * g : ℕ) : ℚ) - x * g| = |(k : ℚ) - x| * g := by
    rw [Nat.cast_mul, ← sub_mul, abs_mul, abs_of_pos hg']
  refine ⟨Nat.dvd_mul_left g n, ?_, ?_⟩
  · intro v hv
    obtain ⟨k, rfl⟩ := hv
    rw [Nat.mul_comm g k, hscale, hscale]
    exact mul_le_mul_of_nonneg_right (h.le k trivial) hg'.le
  · intro v hv hne htie
    obtain ⟨k, rfl⟩ := hv
    rw [Nat.mul_comm g k] at hne htie ⊢
    rw [hscale, hscale] at htie
    have heven := h.even k trivial (fun e => hne (by rw [e])) (mul_right_cancel₀ hg'.ne' htie)
    have hmul := mul_dvd_mul_right heven (g : ℤ)
    push_cast
    rwa [mul_assoc, sub_mul] at hmul

/-! ## Numbers of at most 53 significant bits -/

/-- The number has at most 53 significant bits. -/
def Short (n : ℕ) : Prop := ∃ m e, m < 2 ^ 53 ∧ n = m * 2 ^ e

theorem short_mul_two_pow {m : ℕ} (hm : m ≤ 2 ^ 53) (e : ℕ) : Short (m * 2 ^ e) := by
  rcases Nat.lt_or_eq_of_le hm with hlt | rfl
  · exact ⟨m, e, hlt, rfl⟩
  · refine ⟨2 ^ 52, e + 1, by norm_num, ?_⟩
    rw [pow_succ 2 e, pow_succ 2 52]
    ring

/-- A number that needs a finer step than `2 ^ e` is less than any with 53 bits above it. -/
theorem Short.lt_of_not_dvd {n e : ℕ} (h : Short n) (hn : ¬ 2 ^ e ∣ n) : n < 2 ^ (52 + e) := by
  obtain ⟨m, k, hm, rfl⟩ := h
  have hk : k < e := by
    by_contra hle
    exact hn ((Nat.pow_dvd_pow 2 (not_lt.1 hle)).mul_left m)
  calc m * 2 ^ k < 2 ^ 53 * 2 ^ k := Nat.mul_lt_mul_of_pos_right hm (Nat.two_pow_pos k)
    _ = 2 ^ (53 + k) := (pow_add 2 53 k).symm
    _ ≤ 2 ^ (52 + e) := Nat.pow_le_pow_right (by norm_num) (by omega)

section Place

variable {num den : ℕ}

theorem lastPlace_eq_zero_or (num den : ℕ) :
    lastPlace num den = 0 ∨ 2 ^ (52 + lastPlace num den) ≤ num / den := by
  by_cases hzero : num / den = 0
  · left
    simp [lastPlace, hzero]
  · have hlog := Nat.log2_self_le hzero
    rcases Nat.eq_zero_or_pos (lastPlace num den) with hplace | hplace
    · exact Or.inl hplace
    · right
      have he : 52 + lastPlace num den = (num / den).log2 := by
        unfold lastPlace at hplace ⊢
        omega
      rw [he]
      exact hlog

/-- What is kept of a quotient has at most 53 bits, or rounds up to the next power of two. -/
theorem roundDiv_lastPlace_le (num den : ℕ) :
    roundDiv num (den * 2 ^ lastPlace num den) ≤ 2 ^ 53 := by
  have hquotient : num / (den * 2 ^ lastPlace num den) < 2 ^ 53 := by
    rw [← Nat.div_div_eq_div_mul, Nat.div_lt_iff_lt_mul (Nat.two_pow_pos _), ← pow_add]
    calc num / den < 2 ^ ((num / den).log2 + 1) := Nat.lt_log2_self
      _ ≤ 2 ^ (53 + lastPlace num den) := by
        apply Nat.pow_le_pow_right (by norm_num)
        unfold lastPlace
        omega
  rcases roundDiv_cases num (den * 2 ^ lastPlace num den) with hdown | hup <;> omega

/-- **Rounding to 53 bits gives the nearest number with so many**, and of two the even one. -/
theorem nearest_nearest53 (num : ℕ) (h : 0 < den) :
    Nearest Short ((num : ℚ) / den) (nearest53 num den) := by
  have hden : (den : ℚ) ≠ 0 := by exact_mod_cast h.ne'
  unfold nearest53
  rw [Nat.pow_eq]
  have hlarge := lastPlace_eq_zero_or num den
  have hkept := roundDiv_lastPlace_le num den
  generalize lastPlace num den = place at hlarge hkept ⊢
  have hstep : 0 < 2 ^ place := Nat.two_pow_pos place
  have hx : ((num : ℚ) / ((den * 2 ^ place : ℕ) : ℚ)) * ((2 ^ place : ℕ) : ℚ) = num / den := by
    push_cast
    field_simp
  -- Among the multiples of the step the result is nearest.
  have hmultiple := (nearest_roundDiv num (Nat.mul_pos h hstep)).scaled hstep
  rw [hx] at hmultiple
  -- All other numbers of 53 bits are below a multiple that is not above the quotient.
  have hfar {k : ℕ} (hk : Short k) (hnot : ¬ 2 ^ place ∣ k) :
      |((roundDiv num (den * 2 ^ place) * 2 ^ place : ℕ) : ℚ) - num / den| <
        |(k : ℚ) - num / den| := by
    have hbelow : 2 ^ (52 + place) ≤ num / den := by
      refine hlarge.resolve_left ?_
      rintro rfl
      exact hnot (by simp)
    have hlt : (k : ℚ) < (2 ^ (52 + place) : ℕ) := by exact_mod_cast hk.lt_of_not_dvd hnot
    have hle : ((2 ^ (52 + place) : ℕ) : ℚ) ≤ num / den :=
      le_trans (by exact_mod_cast hbelow) Nat.cast_div_le
    have hnear := hmultiple.le (2 ^ (52 + place)) (pow_dvd_pow 2 (by omega))
    rw [abs_of_nonpos (sub_nonpos.2 hle)] at hnear
    rw [abs_of_nonpos (sub_nonpos.2 (hlt.le.trans hle))]
    linarith
  refine ⟨short_mul_two_pow hkept place, ?_, ?_⟩
  · intro k hk
    by_cases hdvd : 2 ^ place ∣ k
    · exact hmultiple.le k hdvd
    · exact (hfar hk hdvd).le
  · intro k hk hne htie
    by_cases hdvd : 2 ^ place ∣ k
    · exact hmultiple.even k hdvd hne htie
    · exact absurd htie (hfar hk hdvd).ne'

end Place

/-! ## The nearest binary64 number -/

/-- The binary64 number nearest to a value that is not negative: the nearest number of 53 bits in
units, or infinity where that exceeds every finite number. -/
def NearestTo (q : ℚ) (x : Binary64) : Prop :=
  ∃ units, Nearest Short (q * one) units ∧ x = ofUnits false units

theorem NearestTo.unique {q : ℚ} {x y : Binary64} (hx : NearestTo q x) (hy : NearestTo q y) :
    x = y := by
  obtain ⟨units, hunits, hx⟩ := hx
  obtain ⟨units', hunits', hy⟩ := hy
  rw [hx, hy, hunits.unique hunits']

theorem nearestTo_ofRatio (num : ℕ) {den : ℕ} (h : 0 < den) :
    NearestTo ((num : ℚ) / den) (ofRatio num den) := by
  refine ⟨nearest53 (num * one) den, ?_, rfl⟩
  have hnearest := nearest_nearest53 (num * one) h
  rwa [Nat.cast_mul, mul_div_right_comm] at hnearest

end StatusBadges.Binary64
