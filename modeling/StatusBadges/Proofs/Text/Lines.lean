import Mathlib.Data.List.Forall2
import StatusBadges.Proofs.Text
import StatusBadges.Proofs.Text.Pieces

/-!
# Lines and line feeds

The lines of a text are its pieces between line feeds, without the carriage returns that stand right
before a line feed and without the empty piece behind the last one (`lined_split`). What is asked of
a line and does not see a carriage return at its end (`IgnoresReturn`) can therefore be asked of the
pieces (`map_split`), and pieces go through appended texts.
-/

namespace StatusBadges.Text

/-! ## Lines and pieces -/

/-- The piece of a text that is no line of it: the empty one behind the last line feed. -/
def openPiece (s : List Char) : List (List Char) :=
  if s.getLast?.all (· = '\n') then [[]] else []

/-- A piece is a line, with or without a carriage return at its end. -/
def Lined (piece line : List Char) : Prop := piece = line ∨ piece = line ++ ['\r']

theorem Lined.cons {piece line : List Char} (h : Lined piece line) (c : Char) :
    Lined (c :: piece) (c :: line) := by
  rcases h with rfl | rfl
  · exact Or.inl rfl
  · exact Or.inr rfl

theorem openPiece_cons {c d : Char} {s : List Char} :
    openPiece (c :: d :: s) = openPiece (d :: s) := by
  simp [openPiece, List.getLast?_cons_cons]

theorem openPiece_lineFeed (s : List Char) : openPiece ('\n' :: s) = openPiece s := by
  cases s with
  | nil => rfl
  | cons d s => exact openPiece_cons

theorem openPiece_append (s t : List Char) : openPiece (s ++ '\n' :: t) = openPiece t := by
  induction s with
  | nil => exact openPiece_lineFeed t
  | cons c s ih =>
    cases s with
    | nil => rw [List.singleton_append, openPiece_cons, openPiece_lineFeed]
    | cons d s => rw [← ih, List.cons_append, List.cons_append, openPiece_cons]

theorem openPiece_eq_nil {s : List Char} (hne : s ≠ []) (hlast : s.getLast? ≠ some '\n') :
    openPiece s = [] := by
  cases hc : s.getLast? with
  | none => exact absurd (List.getLast?_eq_none_iff.1 hc) hne
  | some c =>
    have hfeed : c ≠ '\n' := fun e => hlast (by rw [hc, e])
    simp [openPiece, hc, hfeed]

theorem lines_ne_nil {s : List Char} (h : s ≠ []) : lines s ≠ [] := by
  fun_cases lines s with
  | case1 => exact absurd rfl h
  | case2 => simp
  | case3 => simp
  | case4 => simp
  | case5 => simp

/-- **The pieces of a text are its lines**, but for carriage returns and for the piece behind the
last line feed. -/
theorem lined_split (s : List Char) :
    List.Forall₂ Lined (split '\n' s) (lines s ++ openPiece s) := by
  fun_induction lines s with
  | case1 => exact .cons (Or.inl rfl) .nil
  | case2 rest ih =>
    rw [split, if_pos rfl, openPiece_lineFeed]
    exact .cons (Or.inl rfl) ih
  | case3 rest ih =>
    have hsplit : split '\n' ('\r' :: '\n' :: rest) = ['\r'] :: split '\n' rest := by
      simp [split]
    rw [hsplit, openPiece_cons, openPiece_lineFeed]
    exact .cons (Or.inr rfl) ih
  | case4 c rest hfeed _ hnone ih =>
    have hrest : rest = [] := by
      by_contra h
      exact lines_ne_nil h hnone
    subst hrest
    have hc : ¬ c = '\n' := fun e => hfeed e
    simp only [split, openPiece, List.getLast?_singleton, Option.all_some, hc,
      decide_false, Bool.false_eq_true, if_false]
    exact .cons (Or.inl rfl) .nil
  | case5 c rest hfeed _ line more hsome ih =>
    have hc : ¬ c = '\n' := fun e => hfeed e
    obtain ⟨d, rest, rfl⟩ : ∃ d tail, rest = d :: tail := by
      cases rest with
      | nil => cases hsome
      | cons d tail => exact ⟨d, tail, rfl⟩
    rw [hsome, List.cons_append] at ih
    cases hpieces : split '\n' (d :: rest) with
    | nil => exact absurd hpieces (split_ne_nil _ _)
    | cons piece pieces =>
      rw [hpieces] at ih
      cases ih with
      | cons hpiece hmore =>
        rw [split, if_neg hc, hpieces, openPiece_cons]
        exact .cons (hpiece.cons c) hmore

/-! ## Questions about lines -/

/-- What is asked of a line does not depend on a carriage return at its end. -/
def IgnoresReturn {α : Type} (f : List Char → α) : Prop := ∀ line, f (line ++ ['\r']) = f line

/-- A text that does not end with a carriage return is found or not whether one follows the line. -/
theorem ignoresReturn_occurs {needle : List Char} {a : Char} (hlast : needle.getLast? = some a)
    (ha : a ≠ '\r') : IgnoresReturn (occurs needle) := by
  intro line
  obtain ⟨before, rfl⟩ := List.getLast?_eq_some_iff.1 hlast
  have hreturn : a ∉ ['\r'] := by simpa using ha
  rw [Bool.eq_iff_iff, occurs_iff, occurs_iff, infix_append_iff_of_last hreturn]

theorem map_eq_of_lined {α : Type} {f : List Char → α} (hf : IgnoresReturn f)
    {pieces lines : List (List Char)} (h : List.Forall₂ Lined pieces lines) :
    pieces.map f = lines.map f := by
  induction h with
  | nil => rfl
  | @cons piece line pieces lines hpiece _ ih =>
    have hf' : f piece = f line := by
      rcases hpiece with rfl | rfl
      · rfl
      · exact hf line
    rw [List.map_cons, List.map_cons, hf', ih]

/-- What does not see carriage returns at the ends of lines says the same of lines and pieces. -/
theorem map_split {α : Type} {f : List Char → α} (hf : IgnoresReturn f) (s : List Char) :
    (split '\n' s).map f = (lines s).map f ++ (openPiece s).map f := by
  rw [← List.map_append]
  exact map_eq_of_lined hf (lined_split s)

/-- Behind a line feed begins a new line, and the pieces before it are lines. -/
theorem map_lines_append {α : Type} {f : List Char → α} (hf : IgnoresReturn f)
    (s t : List Char) :
    (lines (s ++ '\n' :: t)).map f = (split '\n' s).map f ++ (lines t).map f := by
  have hpieces := map_split hf (s ++ '\n' :: t)
  rw [split_append, List.map_append, map_split hf t, openPiece_append, ← List.append_assoc]
    at hpieces
  exact (List.append_cancel_right hpieces).symm

/-- What does not hold of an empty line holds of as many pieces as lines. -/
theorem countP_split {p : List Char → Bool} (hp : IgnoresReturn p) (hempty : p [] = false)
    (s : List Char) : (split '\n' s).countP p = (lines s).countP p := by
  have hopen : (openPiece s).countP p = 0 := by
    unfold openPiece
    split
    · simp [hempty]
    · rfl
  have hmap := congrArg (List.countP id) (map_split hp s)
  rw [← List.map_append, List.countP_map, List.countP_map, List.countP_append] at hmap
  simpa only [Function.id_comp, hopen, Nat.add_zero] using hmap

end StatusBadges.Text
