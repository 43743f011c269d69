/-!
# Sets of code points

A property of characters is given by the ranges of code points that have it, in increasing order.
-/

namespace StatusBadges.Text

/-- Whether a code point lies in one of the ranges, which are in increasing order. -/
def inRanges : List (Nat × Nat) → Nat → Bool
  | [], _ => false
  | (low, high) :: rest, n => if n < low then false else n ≤ high || inRanges rest n

/-- A code point that lies in a table is bounded by one of its ranges. -/
theorem exists_range_of_inRanges {table : List (Nat × Nat)} {n : Nat}
    (h : inRanges table n = true) : ∃ r ∈ table, r.1 ≤ n ∧ n ≤ r.2 := by
  induction table with
  | nil => simp [inRanges] at h
  | cons r rest ih =>
    obtain ⟨low, high⟩ := r
    simp only [inRanges] at h
    split at h
    · simp at h
    · rename_i hlow
      rcases Bool.or_eq_true _ _ ▸ h with hh | hh
      · exact ⟨(low, high), by simp, by simpa using hlow, by simpa using hh⟩
      · obtain ⟨r, hr, hb⟩ := ih hh
        exact ⟨r, by simp [hr], hb⟩

end StatusBadges.Text
