import StatusBadges.Text.Search

/-!
# Pieces of texts

A text that is split at a character and one that is joined with it are two views of the same thing:
splitting goes through appended texts (`split_append`), joining through appended pieces
(`joined_append`), and pieces without the character come back (`split_joined`).
-/

namespace StatusBadges.Text

theorem split_append (c : Char) (a b : List Char) :
    split c (a ++ c :: b) = split c a ++ split c b := by
  induction a with
  | nil => simp [split]
  | cons x a ih =>
    by_cases hx : x = c
    · simp [split, hx, ih]
    · cases hs : split c a with
      | nil => exact absurd hs (split_ne_nil c a)
      | cons piece more => simp [split, hx, ih, hs]

theorem split_eq_singleton {c : Char} {a : List Char} (h : c ∉ a) : split c a = [a] := by
  induction a with
  | nil => rfl
  | cons x a ih =>
    obtain ⟨hx, ha⟩ : c ≠ x ∧ c ∉ a := by simpa using h
    simp [split, Ne.symm hx, ih ha]

theorem notMem_of_mem_split {c : Char} {a piece : List Char} (h : piece ∈ split c a) :
    c ∉ piece := by
  induction a generalizing piece with
  | nil =>
    rw [split, List.mem_singleton] at h
    simp [h]
  | cons x a ih =>
    by_cases hx : x = c
    · rw [split, if_pos hx] at h
      rcases List.mem_cons.1 h with rfl | h
      · simp
      · exact ih h
    · rw [split, if_neg hx] at h
      cases hs : split c a with
      | nil => exact absurd hs (split_ne_nil c a)
      | cons first more =>
        rw [hs] at h ih
        rcases List.mem_cons.1 h with rfl | h
        · have hf := ih List.mem_cons_self
          simp [Ne.symm hx, hf]
        · exact ih (List.mem_cons_of_mem _ h)

theorem joined_append (c : Char) {a b : List (List Char)} (ha : a ≠ []) (hb : b ≠ []) :
    joined [c] (a ++ b) = joined [c] a ++ c :: joined [c] b := by
  induction a with
  | nil => exact absurd rfl ha
  | cons piece more ih =>
    cases more with
    | nil =>
      cases b with
      | nil => exact absurd rfl hb
      | cons next rest => simp [joined]
    | cons next rest =>
      have e := ih (by simp)
      simp only [List.cons_append] at e ⊢
      simp [joined, e]

theorem mem_joined {c x : Char} {pieces : List (List Char)} (h : x ∈ joined [c] pieces) :
    x = c ∨ ∃ piece ∈ pieces, x ∈ piece := by
  induction pieces with
  | nil => cases h
  | cons piece more ih =>
    cases more with
    | nil => exact Or.inr ⟨piece, by simp, h⟩
    | cons next more =>
      simp only [joined, List.append_assoc, List.mem_append, List.mem_singleton] at h
      rcases h with h | h | h
      · exact Or.inr ⟨piece, by simp, h⟩
      · exact Or.inl h
      · rcases ih h with h | ⟨found, hf, hx⟩
        · exact Or.inl h
        · exact Or.inr ⟨found, List.mem_cons_of_mem _ hf, hx⟩

theorem infix_joined {separator piece : List Char} {pieces : List (List Char)}
    (h : piece ∈ pieces) : piece <:+: joined separator pieces := by
  induction pieces with
  | nil => cases h
  | cons first more ih =>
    cases more with
    | nil =>
      rw [List.mem_singleton] at h
      exact h ▸ List.infix_refl _
    | cons next more =>
      simp only [joined, List.append_assoc]
      rcases List.mem_cons.1 h with rfl | h
      · exact (List.prefix_append _ _).isInfix
      · exact (((ih h).trans (List.suffix_append _ _).isInfix).trans
          (List.suffix_append _ _).isInfix)

theorem infix_of_mem_split {c : Char} {a piece : List Char} (h : piece ∈ split c a) :
    piece <:+: a := by
  have hinfix := @infix_joined [c] _ _ h
  rwa [joined_split] at hinfix

theorem split_joined {c : Char} {pieces : List (List Char)} (hne : pieces ≠ [])
    (h : ∀ piece ∈ pieces, c ∉ piece) : split c (joined [c] pieces) = pieces := by
  induction pieces with
  | nil => exact absurd rfl hne
  | cons piece more ih =>
    obtain ⟨hpiece, hmore⟩ := List.forall_mem_cons.1 h
    cases more with
    | nil => exact split_eq_singleton hpiece
    | cons next rest =>
      have e : joined [c] (piece :: next :: rest) = piece ++ c :: joined [c] (next :: rest) := by
        simp [joined]
      rw [e, split_append, split_eq_singleton hpiece, ih (by simp) hmore]
      rfl

end StatusBadges.Text
