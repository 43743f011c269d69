import StatusBadges.Proofs.Binary64.Tenths

/-!
# Rounded arithmetic

Rounding keeps the order (`Nearest.mono`), and so do the rounded operations on magnitudes, where a
greater divisor makes a quotient smaller. Each of them is the exact operation followed by rounding
to the nearest binary64 number (`rounds_unitsDiv` and the like), as long as the result is finite.
-/

namespace StatusBadges.Binary64

/-! ## Order -/

section Order

variable {grid : ℕ → Prop} {x y a b : ℚ} {m n : ℕ}

/-- A number of the grid is nearest to itself. -/
theorem Nearest.self (h : grid n) : Nearest grid n n := by
  refine ⟨h, ?_, ?_⟩
  · intro k _
    rw [sub_self, abs_zero]
    exact abs_nonneg _
  · intro k _ hk htie
    rw [sub_self, abs_zero, abs_eq_zero, sub_eq_zero] at htie
    exact absurd (Nat.cast_injective htie) hk

theorem middle_le_of_nearer (hab : a < b) (h : |b - x| ≤ |a - x|) : (a + b) / 2 ≤ x := by
  by_contra hx
  have hfar : |a - x| < b - x := abs_lt.2 ⟨by linarith, by linarith⟩
  linarith [le_abs_self (b - x)]

theorem le_middle_of_nearer (hab : a < b) (h : |a - x| ≤ |b - x|) : x ≤ (a + b) / 2 := by
  by_contra hx
  have hfar : |b - x| < x - a := abs_lt.2 ⟨by linarith, by linarith⟩
  linarith [neg_le_abs (a - x)]

/-- **Rounding keeps the order.** If it did not, both values would lie in the middle between the two
results, and one value has one nearest number. -/
theorem Nearest.mono (hm : Nearest grid x m) (hn : Nearest grid y n) (h : x ≤ y) : m ≤ n := by
  by_contra hlt
  have hlt' : (n : ℚ) < m := by exact_mod_cast not_le.1 hlt
  have hlow := middle_le_of_nearer hlt' (hm.le n hn.mem)
  have hhigh := le_middle_of_nearer hlt' (hn.le m hm.mem)
  obtain rfl : x = y := by linarith
  exact hlt (hm.unique hn).le

end Order

/-! ## Rounding a quotient -/

section Rounding

variable {num den num' den' n : ℕ}

theorem nearest53_mono (hden : 0 < den) (hden' : 0 < den') (h : num * den' ≤ num' * den) :
    nearest53 num den ≤ nearest53 num' den' := by
  apply (nearest_nearest53 num hden).mono (nearest_nearest53 num' hden')
  have hpos : (0 : ℚ) < den := by exact_mod_cast hden
  have hpos' : (0 : ℚ) < den' := by exact_mod_cast hden'
  rw [div_le_div_iff₀ hpos hpos']
  exact_mod_cast h

theorem nearest53_le (hden : 0 < den) (hn : Short n) (h : num ≤ n * den) :
    nearest53 num den ≤ n := by
  apply (nearest_nearest53 num hden).mono (.self hn)
  have hpos : (0 : ℚ) < den := by exact_mod_cast hden
  rw [div_le_iff₀ hpos]
  exact_mod_cast h

theorem le_nearest53 (hden : 0 < den) (hn : Short n) (h : n * den ≤ num) :
    n ≤ nearest53 num den := by
  apply (Nearest.self hn).mono (nearest_nearest53 num hden)
  have hpos : (0 : ℚ) < den := by exact_mod_cast hden
  rw [le_div_iff₀ hpos]
  exact_mod_cast h

/-! ## Operations on magnitudes -/

variable {a a' b b' k : ℕ}

theorem short_two_pow_mul_one (k : ℕ) : Short (2 ^ k * one) := by
  unfold one
  generalize 1074 = e
  refine ⟨1, k + e, by norm_num, ?_⟩
  rw [Nat.pow_eq, one_mul, pow_add]

theorem unitsOfNat_mono (h : a ≤ b) : unitsOfNat a ≤ unitsOfNat b := by
  apply nearest53_mono Nat.one_pos Nat.one_pos
  exact Nat.mul_le_mul_right _ (Nat.mul_le_mul_right _ h)

theorem unitsOfNat_le (h : n ≤ 2 ^ k) : unitsOfNat n ≤ 2 ^ k * one := by
  apply nearest53_le Nat.one_pos (short_two_pow_mul_one k)
  rw [mul_one]
  exact Nat.mul_le_mul_right _ h

theorem one_le_unitsOfNat (h : 0 < n) : one ≤ unitsOfNat n := by
  have hshort : Short one := by simpa using short_two_pow_mul_one 0
  apply le_nearest53 Nat.one_pos hshort
  rw [mul_one]
  exact Nat.le_mul_of_pos_left one h

theorem unitsOfNat_pos (h : 0 < n) : 0 < unitsOfNat n := one_pos.trans_le (one_le_unitsOfNat h)

/-- A quotient grows with what is divided and gets smaller with the divisor. -/
theorem unitsDiv_mono (ha : a ≤ a') (hb : b' ≤ b) (hpos : 0 < b') :
    unitsDiv a b ≤ unitsDiv a' b' := by
  apply nearest53_mono (hpos.trans_le hb) hpos
  exact Nat.mul_le_mul (Nat.mul_le_mul_right _ ha) hb

theorem unitsDiv_le (ha : a ≤ 2 ^ k * one) (hb : one ≤ b) : unitsDiv a b ≤ 2 ^ k * one := by
  apply nearest53_le (one_pos.trans_le hb) (short_two_pow_mul_one k)
  exact Nat.mul_le_mul ha hb

theorem unitsMul_mono (ha : a ≤ a') : unitsMul a b ≤ unitsMul a' b := by
  apply nearest53_mono one_pos one_pos
  exact Nat.mul_le_mul_right _ (Nat.mul_le_mul_right _ ha)

theorem unitsMul_le (ha : a ≤ 2 ^ k * one) (hb : b ≤ 2 ^ n * one) :
    unitsMul a b ≤ 2 ^ (k + n) * one := by
  apply nearest53_le one_pos (short_two_pow_mul_one (k + n))
  have hmul := Nat.mul_le_mul ha hb
  rw [pow_add]
  linarith

end Rounding

/-! ## Values of rounded operations -/

/-- The binary64 number nearest to `q` is finite and has the value `r`. -/
def Rounds (q r : ℚ) : Prop := ∃ x, NearestTo q x ∧ x.value? = some r

theorem Rounds.unique {q r r' : ℚ} (h : Rounds q r) (h' : Rounds q r') : r = r' := by
  obtain ⟨x, hx, hr⟩ := h
  obtain ⟨x', hx', hr'⟩ := h'
  rw [hx.unique hx', hr'] at hr
  exact (Option.some.inj hr).symm

section Values

variable {num den a b k : ℕ} {q : ℚ}

theorem value?_finite (units : ℕ) : value? (.finite false units) = some (units / one : ℚ) := by
  rw [value?, if_neg Bool.false_ne_true, one_mul]

/-- A magnitude far below the greatest one is finite. -/
theorem ofUnits_of_le (hk : k < 1024) (h : a ≤ 2 ^ k * one) :
    ofUnits false a = .finite false a := by
  have hfinite : a < Nat.pow 2 2098 := by
    unfold one at h
    generalize hd : 1074 = d at h
    generalize he : 2098 = e
    rw [Nat.pow_eq, ← pow_add] at h
    exact h.trans_lt (Nat.pow_lt_pow_right (by omega) (by omega))
  rw [ofUnits, if_pos hfinite]

theorem rounds_nearest53 (hden : 0 < den) (hq : q * one = (num : ℚ) / den) (hk : k < 1024)
    (h : nearest53 num den ≤ 2 ^ k * one) : Rounds q (nearest53 num den / one) := by
  refine ⟨.finite false (nearest53 num den), ⟨_, ?_, (ofUnits_of_le hk h).symm⟩, value?_finite _⟩
  rw [hq]
  exact nearest_nearest53 num hden

theorem rounds_unitsOfNat (hk : k < 1024) (h : a ≤ 2 ^ k) : Rounds a (unitsOfNat a / one) := by
  apply rounds_nearest53 Nat.one_pos _ hk (unitsOfNat_le h)
  push_cast
  rw [div_one]

theorem rounds_unitsDiv (hk : k < 1024) (ha : a ≤ 2 ^ k * one) (hb : one ≤ b) :
    Rounds ((a / one) / (b / one)) (unitsDiv a b / one) := by
  apply rounds_nearest53 (one_pos.trans_le hb) _ hk (unitsDiv_le ha hb)
  have hone : (one : ℚ) ≠ 0 := one_pos'.ne'
  have hpos : (b : ℚ) ≠ 0 := by exact_mod_cast (one_pos.trans_le hb).ne'
  push_cast
  field_simp

theorem rounds_unitsMul {n : ℕ} (hk : k + n < 1024) (ha : a ≤ 2 ^ k * one) (hb : b ≤ 2 ^ n * one) :
    Rounds ((a / one) * (b / one)) (unitsMul a b / one) := by
  apply rounds_nearest53 one_pos _ hk (unitsMul_le ha hb)
  have hone : (one : ℚ) ≠ 0 := one_pos'.ne'
  push_cast
  field_simp

/-- Two finite numbers, the first not greater than the second. -/
def Ordered (x y : Binary64) : Prop :=
  ∃ q r, x.value? = some q ∧ y.value? = some r ∧ q ≤ r

theorem ordered_finite (h : a ≤ b) : Ordered (.finite false a) (.finite false b) := by
  refine ⟨_, _, value?_finite a, value?_finite b, ?_⟩
  exact div_le_div_of_nonneg_right (by exact_mod_cast h) one_pos'.le

end Values

end StatusBadges.Binary64
