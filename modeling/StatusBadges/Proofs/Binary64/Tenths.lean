import StatusBadges.Binary64.Decimal
import StatusBadges.Proofs.Binary64.Rounding
import StatusBadges.Proofs.Text

/-!
# Numbers in tenths

With one decimal a finite number shows its sign and its magnitude in tenths (`tenthsText_inj`). What
is shown is at most half a tenth away from the exact value, so that numbers that show the same lie
on the same side of each whole number but the one that they show (`le_iff_of_tenths`).
-/

namespace StatusBadges.Binary64

/-! ## Exact values -/

/-- The exact value of a finite number. -/
def value? : Binary64 → Option ℚ
  | .finite negative units => some ((if negative then -1 else 1) * (units / one))
  | .infinite _ => none
  | .nan => none

theorem exists_finite_of_value? {x : Binary64} {q : ℚ} (h : x.value? = some q) :
    ∃ negative units, x = .finite negative units ∧
      q = (if negative then -1 else 1) * (units / one) := by
  cases x with
  | finite negative units => exact ⟨negative, units, rfl, (Option.some.inj h).symm⟩
  | infinite negative => cases h
  | nan => cases h

theorem one_pos' : (0 : ℚ) < one := by exact_mod_cast one_pos

/-- Numbers are compared with whole numbers by their exact values. -/
theorem atLeast_iff {x : Binary64} {q : ℚ} {n : ℕ} (h : x.value? = some q) (hn : 0 < n) :
    x.atLeast n = true ↔ (n : ℚ) ≤ q := by
  obtain ⟨negative, units, rfl, rfl⟩ := exists_finite_of_value? h
  cases negative with
  | false =>
    simp only [atLeast, decide_eq_true_eq, Bool.false_eq_true, if_false, one_mul]
    rw [le_div_iff₀ one_pos']
    exact_mod_cast Iff.rfl
  | true =>
    have hvalue : (0 : ℚ) ≤ units / one := div_nonneg (Nat.cast_nonneg _) one_pos'.le
    have hn' : (0 : ℚ) < n := by exact_mod_cast hn
    have hnot : ¬ n = 0 := hn.ne'
    simp only [atLeast, hnot, decide_false, Bool.false_and, Bool.false_eq_true, if_true, false_iff,
      not_le]
    linarith

/-! ## Tenths -/

/-- A number of tenths with its sign, as it is shown. -/
def tenthsText (negative : Bool) (t : ℕ) : List Char :=
  (if negative then ['-'] else []) ++ Text.numeral (t / 10) ++ '.' :: Text.numeral (t % 10)

theorem fixed1_finite (negative : Bool) (units : ℕ) :
    fixed1 (.finite negative units) = tenthsText negative (tenths units) := rfl

theorem numeral_injective : Function.Injective Text.numeral := by
  intro m n h
  rw [← Text.numeralValue_numeral m, h, Text.numeralValue_numeral]

theorem notMem_numeral {c : Char} (hc : c.isDigit = false) (n : ℕ) : c ∉ Text.numeral n := by
  intro hmem
  rw [Text.isDigit_of_mem_numeral hmem] at hc
  cases hc

theorem signed_inj {negative negative' : Bool} {m n : ℕ}
    (h : (if negative then ['-'] else []) ++ Text.numeral m =
      (if negative' then ['-'] else []) ++ Text.numeral n) : negative = negative' ∧ m = n := by
  have hdash (n : ℕ) : '-' ∉ Text.numeral n := notMem_numeral (by decide) n
  cases negative with
  | false =>
    cases negative' with
    | false => exact ⟨rfl, numeral_injective h⟩
    | true =>
      have hcons : Text.numeral m = '-' :: Text.numeral n := h
      exact absurd (hcons ▸ List.mem_cons_self) (hdash m)
  | true =>
    cases negative' with
    | false =>
      have hcons : '-' :: Text.numeral m = Text.numeral n := h
      exact absurd (hcons ▸ List.mem_cons_self) (hdash n)
    | true => exact ⟨rfl, numeral_injective (List.cons.inj h).2⟩

/-- **What is shown tells the sign and the tenths.** -/
theorem tenthsText_inj {negative negative' : Bool} {t t' : ℕ}
    (h : tenthsText negative t = tenthsText negative' t') : negative = negative' ∧ t = t' := by
  have hpoint (negative : Bool) (n : ℕ) :
      '.' ∉ (if negative then ['-'] else []) ++ Text.numeral n := by
    cases negative <;> simp [notMem_numeral]
  obtain ⟨hwhole, hrest⟩ := Text.eq_of_first_separator (hpoint _ _) (hpoint _ _) h
  obtain ⟨hsign, hwhole⟩ := signed_inj hwhole
  have hrest := numeral_injective hrest
  exact ⟨hsign, by omega⟩

/-- What is shown is at most half a tenth away. -/
theorem abs_tenths_sub_le (units : ℕ) :
    |(tenths units : ℚ) - 10 * (units / one)| ≤ 1 / 2 := by
  have hnear := abs_roundDiv_sub_le (units * 10) one_pos
  have hscaled : ((units * 10 : ℕ) : ℚ) / one = 10 * (units / one) := by
    push_cast
    ring
  rwa [hscaled] at hnear

theorem lt_of_tenths_lt {units n : ℕ} (h : tenths units < 10 * n) : (units : ℚ) / one < n := by
  have hnear := (abs_le.1 (abs_tenths_sub_le units)).1
  have hless : (tenths units : ℚ) + 1 ≤ 10 * n := by exact_mod_cast h
  linarith

theorem le_of_lt_tenths {units n : ℕ} (h : 10 * n < tenths units) : (n : ℚ) ≤ units / one := by
  have hnear := (abs_le.1 (abs_tenths_sub_le units)).2
  have hmore : (10 * n : ℚ) + 1 ≤ tenths units := by exact_mod_cast h
  linarith

/-- **Numbers that show the same** lie on the same side of each positive whole number but the one
that they show. -/
theorem le_iff_of_tenths {x y : Binary64} {q r : ℚ} {n : ℕ} (hx : x.value? = some q)
    (hy : y.value? = some r) (hn : 0 < n) (h : x.fixed1 = y.fixed1)
    (hne : x.fixed1 ≠ tenthsText false (10 * n)) : (n : ℚ) ≤ q ↔ (n : ℚ) ≤ r := by
  obtain ⟨negative, units, rfl, rfl⟩ := exists_finite_of_value? hx
  obtain ⟨negative', units', rfl, rfl⟩ := exists_finite_of_value? hy
  rw [fixed1_finite] at h hne
  rw [fixed1_finite] at h
  obtain ⟨rfl, htenths⟩ := tenthsText_inj h
  cases negative with
  | true =>
    have hn' : (0 : ℚ) < n := by exact_mod_cast hn
    have hvalue (units : ℕ) : (0 : ℚ) ≤ units / one := div_nonneg (Nat.cast_nonneg _) one_pos'.le
    have hnot (units : ℕ) : ¬ (n : ℚ) ≤ (if true then -1 else 1) * (units / one) := by
      rw [if_pos rfl]
      linarith [hvalue units]
    exact iff_of_false (hnot units) (hnot units')
  | false =>
    simp only [Bool.false_eq_true, if_false, one_mul]
    have hshown : tenths units ≠ 10 * n := fun e => hne (by rw [e])
    rcases Nat.lt_or_gt_of_ne hshown with hless | hmore
    · exact iff_of_false (lt_of_tenths_lt hless).not_ge (lt_of_tenths_lt (htenths ▸ hless)).not_ge
    · exact iff_of_true (le_of_lt_tenths hmore) (le_of_lt_tenths (htenths ▸ hmore))

end StatusBadges.Binary64
