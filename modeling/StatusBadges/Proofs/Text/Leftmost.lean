import Mathlib.Data.List.Infix
import Mathlib.Data.List.TakeWhile

/-!
# Runs and leftmost places

A reader takes the longest run of characters of a kind, and then looks at what stops the run. What
it takes and what is left are told by the text (`dropWhile_eq_cons_iff`, `eq_of_run`). A search
tries a reader at one place of a text after the other. What it finds is read at the leftmost place
at which anything can be read (`findSome?_tails_eq_some_iff`).
-/

namespace StatusBadges.Text

/-! ## Runs -/

section Runs

variable {p : Char → Bool} {c d : Char} {s t run run' : List Char}

theorem takeWhile_run (hrun : ∀ x ∈ run, p x = true) (hc : p c = false) :
    (run ++ c :: t).takeWhile p = run := by
  rw [List.takeWhile_append_of_pos hrun, List.takeWhile_cons_of_neg (by simp [hc]),
    List.append_nil]

theorem dropWhile_run (hrun : ∀ x ∈ run, p x = true) (hc : p c = false) :
    (run ++ c :: t).dropWhile p = c :: t := by
  rw [List.dropWhile_append_of_pos hrun, List.dropWhile_cons_of_neg (by simp [hc])]

/-- A run ends with the first character of another kind. -/
theorem dropWhile_eq_cons_iff :
    s.dropWhile p = c :: t ↔ s = s.takeWhile p ++ c :: t ∧ p c = false := by
  constructor
  · intro h
    have hs : s.takeWhile p ++ s.dropWhile p = s := List.takeWhile_append_dropWhile
    have hne : s.dropWhile p ≠ [] := by simp [h]
    have hc := List.head_dropWhile_not p hne
    simp only [h, List.head_cons] at hc
    rw [h] at hs
    exact ⟨hs.symm, hc⟩
  · intro h
    obtain ⟨hs, hc⟩ := h
    rw [hs]
    exact dropWhile_run (fun x hx => List.mem_takeWhile_imp hx) hc

/-- What is in a run and what stops it are told by the whole text. -/
theorem eq_of_run (hrun : ∀ x ∈ run, p x = true) (hrun' : ∀ x ∈ run', p x = true)
    (hc : p c = false) (hd : p d = false) (h : run ++ c :: s = run' ++ d :: t) :
    run = run' ∧ c = d ∧ s = t := by
  have htaken := congrArg (List.takeWhile p) h
  have hleft := congrArg (List.dropWhile p) h
  rw [takeWhile_run hrun hc, takeWhile_run hrun' hd] at htaken
  rw [dropWhile_run hrun hc, dropWhile_run hrun' hd] at hleft
  exact ⟨htaken, List.cons.inj hleft⟩

end Runs

/-! ## Leftmost places -/

/-- The leftmost place in a text at which something holds of the rest. -/
structure FirstAt (holds : List Char → Prop) (s before rest : List Char) : Prop where
  text : s = before ++ rest
  here : holds rest
  least : ∀ before' rest', s = before' ++ rest' → holds rest' → before.length ≤ before'.length

namespace FirstAt

variable {holds : List Char → Prop} {c : Char} {s before rest before' rest' : List Char}

theorem unique (h : FirstAt holds s before rest) (h' : FirstAt holds s before' rest') :
    before = before' ∧ rest = rest' := by
  have hlength : before.length = before'.length :=
    Nat.le_antisymm (h.least _ _ h'.text h'.here) (h'.least _ _ h.text h.here)
  exact List.append_inj (h.text.symm.trans h'.text) hlength

/-- What holds at the beginning of a text holds there first. -/
theorem nil (h : holds s) : FirstAt holds s [] s :=
  ⟨rfl, h, fun _ _ _ _ => Nat.zero_le _⟩

theorem cons (hc : ¬ holds (c :: s)) (h : FirstAt holds s before rest) :
    FirstAt holds (c :: s) (c :: before) rest := by
  refine ⟨by rw [h.text, List.cons_append], h.here, ?_⟩
  intro before' rest' hs hrest
  cases before' with
  | nil => exact absurd (hs ▸ hrest) hc
  | cons d before' =>
    have hlength := h.least before' rest' (List.cons.inj hs).2 hrest
    simpa using hlength

theorem tail (h : FirstAt holds (c :: s) (c :: before) rest) :
    ¬ holds (c :: s) ∧ FirstAt holds s before rest := by
  obtain ⟨hs, hhere, hleast⟩ := h
  refine ⟨?_, (List.cons.inj hs).2, hhere, ?_⟩
  · intro hc
    have hlength := hleast [] _ rfl hc
    simp at hlength
  · intro before' rest' hs' hrest'
    have hlength := hleast (c :: before') rest' (by rw [hs', List.cons_append]) hrest'
    simpa using hlength

/-- Where something holds at all, it holds at a first place. -/
theorem exists_of_append (hs : s = before ++ rest) (h : holds rest) :
    ∃ before' rest', FirstAt holds s before' rest' := by
  classical
  induction before generalizing s with
  | nil => exact ⟨[], s, .nil (hs ▸ h)⟩
  | cons c before ih =>
    subst hs
    by_cases hc : holds (c :: (before ++ rest))
    · exact ⟨[], _, .nil hc⟩
    · obtain ⟨before', rest', hfirst⟩ := ih rfl
      exact ⟨c :: before', rest', hfirst.cons hc⟩

end FirstAt

/-! ## Searching with a reader -/

section Search

variable {α : Type} {read : List Char → Option α} {s : List Char} {a : α}

/-- A search finds nothing exactly where nothing can be read at any place. -/
theorem findSome?_tails_eq_none_iff :
    s.tails.findSome? read = none ↔ ∀ before rest, s = before ++ rest → read rest = none := by
  simp only [List.findSome?_eq_none_iff, List.mem_tails]
  constructor
  · intro h before rest hs
    exact h rest ⟨before, hs.symm⟩
  · intro h rest hrest
    obtain ⟨before, hs⟩ := hrest
    exact h before rest hs.symm

theorem findSome?_tails_of_firstAt {holds : List Char → Prop} {before rest : List Char}
    (hread : ∀ t, holds t ↔ ∃ b, read t = some b) (h : FirstAt holds s before rest) :
    s.tails.findSome? read = read rest := by
  induction before generalizing s with
  | nil =>
    obtain ⟨b, hb⟩ := (hread rest).1 h.here
    have hs : s = rest := h.text
    subst hs
    cases s <;> simp [hb]
  | cons c before ih =>
    have hs : s = c :: (before ++ rest) := h.text
    subst hs
    obtain ⟨hc, htail⟩ := h.tail
    have hnone : read (c :: (before ++ rest)) = none := by
      rw [Option.eq_none_iff_forall_ne_some]
      intro b hb
      exact hc ((hread _).2 ⟨b, hb⟩)
    rw [List.tails_cons, List.findSome?_cons, hnone]
    exact ih htail

/-- **A search finds what is read at the leftmost place** at which anything can be read. -/
theorem findSome?_tails_eq_some_iff {holds : List Char → Prop}
    (hread : ∀ t, holds t ↔ ∃ b, read t = some b) :
    s.tails.findSome? read = some a ↔
      ∃ before rest, FirstAt holds s before rest ∧ read rest = some a := by
  constructor
  · intro h
    obtain ⟨rest, hrest, hb⟩ := List.exists_of_findSome?_eq_some h
    obtain ⟨before, hs⟩ := (List.mem_tails _ _).1 hrest
    obtain ⟨before', rest', hfirst⟩ :=
      FirstAt.exists_of_append hs.symm ((hread rest).2 ⟨a, hb⟩)
    exact ⟨before', rest', hfirst, by rw [← findSome?_tails_of_firstAt hread hfirst, h]⟩
  · intro h
    obtain ⟨before, rest, hfirst, hrest⟩ := h
    rw [findSome?_tails_of_firstAt hread hfirst, hrest]

end Search

end StatusBadges.Text
