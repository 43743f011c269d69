import StatusBadges.Coverage.Summary
import StatusBadges.Proofs.Text.Lines

/-!
# Percentages of lines

A percentage is found by the characters up to its percent sign, so that a carriage return at the end
of a line does not change what the line states (`ignoresReturn_statedPercent?`).
-/

namespace StatusBadges.Coverage

theorem takeWhile_concat_return {p : Char → Bool} (hp : p '\r' = false) (s : List Char) :
    (s ++ ['\r']).takeWhile p = s.takeWhile p := by
  induction s with
  | nil => simp [hp]
  | cons c s ih => by_cases hc : p c = true <;> simp [hc, ih]

theorem dropWhile_concat_return {p : Char → Bool} (hp : p '\r' = false) (s : List Char) :
    (s ++ ['\r']).dropWhile p = s.dropWhile p ++ ['\r'] := by
  induction s with
  | nil => simp [hp]
  | cons c s ih => by_cases hc : p c = true <;> simp [hc, ih]

/-- A carriage return behind a percentage is not part of it. -/
theorem ignoresReturn_percentageHere? : Text.IgnoresReturn percentageHere? := by
  intro s
  have hdigit : Text.isDecimalDigit '\r' = false := by decide
  simp only [percentageHere?, takeWhile_concat_return hdigit, dropWhile_concat_return hdigit]
  split
  · rfl
  · cases s.dropWhile Text.isDecimalDigit with
    | nil => rfl
    | cons c behind =>
      by_cases hpoint : c = '.'
      · subst hpoint
        simp only [List.cons_append, takeWhile_concat_return hdigit,
          dropWhile_concat_return hdigit]
        cases behind.dropWhile Text.isDecimalDigit with
        | nil => rfl
        | cons d more => by_cases hpercent : d = '%' <;> simp [hpercent]
      · by_cases hpercent : c = '%'
        · subst hpercent
          rfl
        · simp [hpoint, hpercent]

theorem ignoresReturn_percentage? : Text.IgnoresReturn percentage? := by
  intro s
  induction s with
  | nil => decide
  | cons c s ih =>
    rw [List.cons_append, percentage?, percentage?, ih, ← List.cons_append,
      ignoresReturn_percentageHere?]

theorem ignoresReturn_statedPercent? : Text.IgnoresReturn statedPercent? := by
  intro line
  rw [statedPercent?, statedPercent?, ignoresReturn_percentage?,
    Text.ignoresReturn_occurs (a := ':') (by decide) (by decide)]

end StatusBadges.Coverage
