import StatusBadges.Coverage.Basic
import StatusBadges.Proofs.Binary64.Tenths

/-!
# The colour of a percentage

A badge shows a percentage with one decimal, and its colour follows the percentage before it is
rounded. Percentages with the same message have the same colour, unless the message is that of a
threshold, and the threshold lies between them (`color_eq_iff_of_message_eq`).
-/

namespace StatusBadges.Coverage

/-! ## Messages -/

theorem percentText_inj {x y : Binary64} : percentText x = percentText y ↔ x.fixed1 = y.fixed1 := by
  rw [percentText, percentText, String.ofList_inj, List.append_cancel_right_eq]

/-- The message of a threshold. -/
def thresholdText (n : ℕ) : String := String.ofList (Binary64.tenthsText false (10 * n) ++ ['%'])

theorem fixed1_eq_iff_thresholdText {x : Binary64} {n : ℕ} :
    x.fixed1 = Binary64.tenthsText false (10 * n) ↔ percentText x = thresholdText n := by
  rw [percentText, thresholdText, String.ofList_inj, List.append_cancel_right_eq]

/-! ## Colours -/

section Colors

variable {x y : Binary64} {q r : ℚ}

theorem percentColor_of_value? (h : x.value? = some q) :
    percentColor x =
      if 90 ≤ q then "brightgreen" else if 70 ≤ q then "yellow" else "red" := by
  have h90 := Binary64.atLeast_iff h (by norm_num : 0 < 90)
  have h70 := Binary64.atLeast_iff h (by norm_num : 0 < 70)
  push_cast at h90 h70
  simp only [percentColor, h90, h70]

/-- The colour tells on which side of each threshold a percentage lies. -/
theorem percentColor_eq_iff (hx : x.value? = some q) (hy : y.value? = some r) :
    percentColor x = percentColor y ↔ (90 ≤ q ↔ 90 ≤ r) ∧ (70 ≤ q ↔ 70 ≤ r) := by
  have hq (h : 90 ≤ q) : 70 ≤ q := le_trans (by norm_num) h
  have hr (h : 90 ≤ r) : 70 ≤ r := le_trans (by norm_num) h
  rw [percentColor_of_value? hx, percentColor_of_value? hy]
  by_cases hq90 : 90 ≤ q
  · by_cases hr90 : 90 ≤ r
    · simp [hq90, hr90, hq, hr]
    · by_cases hr70 : 70 ≤ r <;> simp [hq90, hr90, hr70]
  · by_cases hr90 : 90 ≤ r
    · by_cases hq70 : 70 ≤ q <;> simp [hq90, hr90, hq70]
    · by_cases hq70 : 70 ≤ q <;> by_cases hr70 : 70 ≤ r <;> simp [hq90, hr90, hq70, hr70]

/-- A percentage that shows a threshold is at most half a tenth away from it. -/
theorem abs_sub_le_of_thresholdText {n : ℕ} (hx : x.value? = some q)
    (h : percentText x = thresholdText n) : |q - n| ≤ 1 / 20 := by
  obtain ⟨negative, units, rfl, rfl⟩ := Binary64.exists_finite_of_value? hx
  rw [← fixed1_eq_iff_thresholdText, Binary64.fixed1_finite] at h
  obtain ⟨rfl, htenths⟩ := Binary64.tenthsText_inj h
  have hnear := abs_le.1 (Binary64.abs_tenths_sub_le units)
  rw [htenths] at hnear
  push_cast at hnear
  simp only [Bool.false_eq_true, if_false, one_mul]
  rw [abs_le]
  constructor
  · linarith
  · linarith

end Colors

/-- **Percentages with the same message have the same colour**, unless the message is 90.0% or 70.0%
and one of them has reached that threshold and the other one has not. A badge that reads 90.0% is
bright green or yellow, and one that reads 70.0% is yellow or red. -/
theorem color_eq_iff_of_message_eq {c c' : Coverage} {q q' : ℚ} (hq : c.percent.value? = some q)
    (hq' : c'.percent.value? = some q') (h : c.message = c'.message) :
    (c.color = c'.color ↔
      (c.message = "90.0%" → (90 ≤ q ↔ 90 ≤ q')) ∧
        (c.message = "70.0%" → (70 ≤ q ↔ 70 ≤ q'))) ∧
    (c.message = "90.0%" → c.color = if 90 ≤ q then "brightgreen" else "yellow") ∧
    (c.message = "70.0%" → c.color = if 70 ≤ q then "yellow" else "red") := by
  have h90 : thresholdText 90 = "90.0%" := by decide
  have h70 : thresholdText 70 = "70.0%" := by decide
  have hsame {n : ℕ} (hn : 0 < n) (hne : c.message ≠ thresholdText n) :
      (n : ℚ) ≤ q ↔ (n : ℚ) ≤ q' :=
    Binary64.le_iff_of_tenths hq hq' hn (percentText_inj.1 h)
      (fun e => hne (fixed1_eq_iff_thresholdText.1 e))
  refine ⟨?_, ?_, ?_⟩
  · rw [color, color, percentColor_eq_iff hq hq']
    constructor
    · intro hsides
      exact ⟨fun _ => hsides.1, fun _ => hsides.2⟩
    · intro hsides
      constructor
      · by_cases hshown : c.message = "90.0%"
        · exact hsides.1 hshown
        · exact_mod_cast hsame (by norm_num) (h90 ▸ hshown)
      · by_cases hshown : c.message = "70.0%"
        · exact hsides.2 hshown
        · exact_mod_cast hsame (by norm_num) (h70 ▸ hshown)
  · intro hshown
    have hnear := abs_le.1 (abs_sub_le_of_thresholdText hq (hshown.trans h90.symm))
    push_cast at hnear
    have hyellow : 70 ≤ q := by linarith
    rw [color, percentColor_of_value? hq, if_pos hyellow]
  · intro hshown
    have hnear := abs_le.1 (abs_sub_le_of_thresholdText hq (hshown.trans h70.symm))
    push_cast at hnear
    have hgreen : ¬ 90 ≤ q := by linarith
    rw [color, percentColor_of_value? hq, if_neg hgreen]

/-- Four hundredths below the threshold. -/
def nearNinety : Coverage := ⟨.ofBits 0x40567D70A3D70A3D, .measured⟩

def ninety : Coverage := ⟨.ofBits 0x4056800000000000, .measured⟩

theorem color_eq_iff_nearNinety :
    ∃ q q', nearNinety.percent.value? = some q ∧ ninety.percent.value? = some q' ∧
      nearNinety.message = ninety.message ∧
      (nearNinety.color = ninety.color ↔
        (nearNinety.message = "90.0%" → (90 ≤ q ↔ 90 ≤ q')) ∧
          (nearNinety.message = "70.0%" → (70 ≤ q ↔ 70 ≤ q'))) := by
  have hsame : nearNinety.message = ninety.message := by decide +kernel
  exact ⟨_, _, rfl, rfl, hsame, (color_eq_iff_of_message_eq rfl rfl hsame).1⟩

/-- Two finite percentages both read 90.0%, one in yellow and one in bright green. -/
theorem same_message_other_color :
    nearNinety.percent.value?.isSome = true ∧ ninety.percent.value?.isSome = true ∧
      nearNinety.message = "90.0%" ∧ ninety.message = "90.0%" ∧
      nearNinety.color = "yellow" ∧ ninety.color = "brightgreen" := by
  decide +kernel

end StatusBadges.Coverage
