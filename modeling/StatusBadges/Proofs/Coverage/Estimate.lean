import StatusBadges.Coverage.Basic
import StatusBadges.Proofs.Binary64.Arithmetic

/-!
# Estimates

An estimate takes four rounded steps: the two counts, their quotient, and that on its scale. The
counts of a project have 64 bits, so that all of these are finite. More test blocks never lower an
estimate and more declarations never raise it, although each step rounds, since each rounding keeps
the order (`estimate_bounded_monotone`).
-/

namespace StatusBadges.Coverage

open Binary64

/-- `q` is the estimate from these counts when each step is exact and then rounded to the nearest
binary64 number: both counts, their quotient, and the product with 85. It is at most 95. -/
def Estimates (blocks declarations : ℕ) (q : ℚ) : Prop :=
  ∃ b d ratio scaled, Rounds blocks b ∧ Rounds declarations d ∧ Rounds (b / d) ratio ∧
    Rounds (ratio * 85) scaled ∧ q = min scaled 95

theorem Estimates.unique {blocks declarations : ℕ} {q q' : ℚ} (h : Estimates blocks declarations q)
    (h' : Estimates blocks declarations q') : q = q' := by
  obtain ⟨b, d, ratio, scaled, hb, hd, hratio, hscaled, rfl⟩ := h
  obtain ⟨b', d', ratio', scaled', hb', hd', hratio', hscaled', rfl⟩ := h'
  obtain rfl := hb.unique hb'
  obtain rfl := hd.unique hd'
  obtain rfl := hratio.unique hratio'
  obtain rfl := hscaled.unique hscaled'
  rfl

section Counts

variable {blocks blocks' declarations declarations' : ℕ}

/-- **Each step of an estimate is rounded to the nearest number.** -/
theorem estimates_estimateUnits (hb : blocks ≤ 2 ^ 64) (hd : declarations ≤ 2 ^ 64)
    (hpos : 0 < declarations) :
    Estimates blocks declarations (estimateUnits blocks declarations / one) := by
  have hone : (one : ℚ) ≠ 0 := one_pos'.ne'
  have hb' := unitsOfNat_le hb
  have hd' := one_le_unitsOfNat hpos
  have hscale : estimateScale * one ≤ 2 ^ 7 * one := Nat.mul_le_mul_right _ (by decide)
  have hscaled := rounds_unitsMul (by norm_num) (unitsDiv_le hb' hd') hscale
  have hfactor : ((estimateScale * one : ℕ) : ℚ) / one = 85 := by
    push_cast
    rw [mul_div_cancel_right₀ _ hone, estimateScale]
    norm_num
  have hcap : ((estimateCap * one : ℕ) : ℚ) / one = 95 := by
    push_cast
    rw [mul_div_cancel_right₀ _ hone, estimateCap]
    norm_num
  rw [hfactor] at hscaled
  refine ⟨_, _, _, _, rounds_unitsOfNat (by norm_num) hb, rounds_unitsOfNat (by norm_num) hd,
    rounds_unitsDiv (by norm_num) hb' hd', hscaled, ?_⟩
  simp only [estimateUnits, if_neg hpos.ne', Nat.cast_min]
  rw [← hcap, min_div_div_right one_pos'.le]

theorem estimateUnits_le (blocks declarations : ℕ) :
    estimateUnits blocks declarations ≤ estimateCap * one := by
  unfold estimateUnits
  split
  · exact Nat.zero_le _
  · exact min_le_right _ _

/-- More blocks never lower an estimate. -/
theorem estimateUnits_mono_blocks (h : blocks ≤ blocks') (hpos : 0 < declarations) :
    estimateUnits blocks declarations ≤ estimateUnits blocks' declarations := by
  simp only [estimateUnits, if_neg hpos.ne']
  apply min_le_min_right
  apply unitsMul_mono
  exact unitsDiv_mono (unitsOfNat_mono h) le_rfl (unitsOfNat_pos hpos)

/-- More declarations never raise an estimate. -/
theorem estimateUnits_anti_declarations (h : declarations ≤ declarations')
    (hpos : 0 < declarations) :
    estimateUnits blocks declarations' ≤ estimateUnits blocks declarations := by
  simp only [estimateUnits, if_neg hpos.ne', if_neg (hpos.trans_le h).ne']
  apply min_le_min_right
  apply unitsMul_mono
  exact unitsDiv_mono le_rfl (unitsOfNat_mono h) (unitsOfNat_pos hpos)

end Counts

/-- **An estimate from counts of 64 bits** is a number from 0 to 95. Without declarations it is 0,
and with some it is what the rounded steps give. It does not fall when there are more test blocks,
and does not rise when there are more declarations. -/
theorem estimate_bounded_monotone (b b' f f' : UInt64) :
    (∃ q, (estimate b.toNat f.toNat).value? = some q ∧ 0 ≤ q ∧ q ≤ 95 ∧ (f = 0 → q = 0) ∧
        (0 < f → ∀ r, Estimates b.toNat f.toNat r ↔ r = q)) ∧
      (0 < f → b ≤ b' → Ordered (estimate b.toNat f.toNat) (estimate b'.toNat f.toNat)) ∧
      (0 < f → f ≤ f' → Ordered (estimate b.toNat f'.toNat) (estimate b.toNat f.toNat)) := by
  have hcount (n : UInt64) : n.toNat ≤ 2 ^ 64 := n.toNat_lt.le
  refine ⟨⟨_, value?_finite _, ?_, ?_, ?_, ?_⟩, ?_, ?_⟩
  · exact div_nonneg (Nat.cast_nonneg _) one_pos'.le
  · rw [div_le_iff₀ one_pos']
    have hle := estimateUnits_le b.toNat f.toNat
    rw [estimateCap] at hle
    exact_mod_cast hle
  · rintro rfl
    rw [UInt64.toNat_zero, estimateUnits, if_pos rfl, Nat.cast_zero, zero_div]
  · intro hf r
    have hestimates := estimates_estimateUnits (hcount b) (hcount f) hf
    exact ⟨fun h => h.unique hestimates, fun h => h ▸ hestimates⟩
  · intro hf hb
    exact ordered_finite (estimateUnits_mono_blocks hb hf)
  · intro hf hff
    exact ordered_finite (estimateUnits_anti_declarations hff hf)

/-- Counts that are rounded when they become binary64 numbers. -/
theorem estimate_bounded_monotone_largeCounts :
    let b : UInt64 := 9007199254740993
    let b' : UInt64 := 9007199254740995
    let f' : UInt64 := 18446744073709551615
    0 < b ∧ b ≤ b' ∧ b ≤ f' ∧
      (∃ q, (estimate b.toNat b.toNat).value? = some q ∧ 0 ≤ q ∧ q ≤ 95 ∧
        Estimates b.toNat b.toNat q) ∧
      Ordered (estimate b.toNat b.toNat) (estimate b'.toNat b.toNat) ∧
      Ordered (estimate b.toNat f'.toNat) (estimate b.toNat b.toNat) := by
  intro b b' f'
  have hpos : 0 < b := by decide
  have hb : b ≤ b' := by decide
  have hf : b ≤ f' := by decide
  obtain ⟨⟨q, hq, hlow, hhigh, -, hsteps⟩, hblocks, hdeclarations⟩ :=
    estimate_bounded_monotone b b' b f'
  exact ⟨hpos, hb, hf, ⟨q, hq, hlow, hhigh, (hsteps hpos q).2 rfl⟩, hblocks hpos hb,
    hdeclarations hpos hf⟩

end StatusBadges.Coverage
