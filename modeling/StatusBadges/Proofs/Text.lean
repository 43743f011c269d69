import Mathlib.Algebra.Group.Nat.Defs
import Mathlib.Data.List.Induction
import Mathlib.Data.List.Infix
import Mathlib.Data.List.TakeWhile
import StatusBadges.Text.Blank
import StatusBadges.Text.Numeral
import StatusBadges.Text.Search

/-!
# Occurrences, separators, white space and numerals

What is searched in a text is found exactly when it lies in one piece there (`occurs_iff`), and
characters that it does not begin or end with add nothing (`infix_append_iff_of_head`,
`infix_append_iff_of_last`). The first and the last of the separators in a text say what is before
and behind them (`eq_of_first_separator`, `eq_of_last_separator`). Trimming leaves a text without
the white space around it, and there is one such text (`trimmed_trim`, `Trimmed.eq_trim`). A numeral
says its number: it is made of digits, which are read back as the number (`numeralValue_numeral`).
-/

namespace StatusBadges.Text

/-! ## Occurrences -/

theorem after?_isSome_iff {lead s : List Char} : (after? lead s).isSome = true ↔ lead <+: s := by
  rw [Option.isSome_iff_exists]
  constructor
  · intro h
    obtain ⟨rest, hrest⟩ := h
    exact ⟨rest, (after?_eq_some_iff.1 hrest).symm⟩
  · intro h
    obtain ⟨rest, rfl⟩ := h
    exact ⟨rest, after?_append lead rest⟩

theorem occurs_iff {needle s : List Char} : occurs needle s = true ↔ needle <:+: s := by
  induction s with
  | nil => simp [occurs]
  | cons c s ih => rw [occurs, Bool.or_eq_true, after?_isSome_iff, ih, List.infix_cons_iff]

theorem occurs_eq_false_iff {needle s : List Char} :
    occurs needle s = false ↔ ¬ needle <:+: s := by
  rw [← occurs_iff, Bool.not_eq_true]

section Infix

variable {x s w : List Char} {a : Char}

theorem infix_append_iff_of_head (hw : a ∉ w) : a :: x <:+: w ++ s ↔ a :: x <:+: s := by
  induction w with
  | nil => rfl
  | cons c w ih =>
    obtain ⟨hc, hw⟩ : a ≠ c ∧ a ∉ w := by simpa using hw
    rw [List.cons_append, List.infix_cons_iff, ih hw, List.cons_prefix_cons]
    exact or_iff_right fun h => hc h.1

theorem infix_append_iff_of_last (hw : a ∉ w) : x ++ [a] <:+: s ++ w ↔ x ++ [a] <:+: s := by
  rw [← List.reverse_infix, ← @List.reverse_infix _ (x ++ [a]) s]
  simp only [List.reverse_append, List.reverse_singleton, List.singleton_append]
  exact infix_append_iff_of_head (by simpa using hw)

end Infix

/-! ## Separators -/

section Separator

variable {separator : Char} {a b x y : List Char}

/-- What stands before and behind the first separator is told by the whole text. -/
theorem eq_of_first_separator (ha : separator ∉ a) (hb : separator ∉ b)
    (h : a ++ separator :: x = b ++ separator :: y) : a = b ∧ x = y := by
  induction a generalizing b with
  | nil =>
    cases b with
    | nil => exact ⟨rfl, (List.cons.inj h).2⟩
    | cons c b => exact absurd ((List.cons.inj h).1 ▸ List.mem_cons_self) hb
  | cons c a ih =>
    obtain ⟨hc, ha⟩ := not_or.1 (List.mem_cons.not.1 ha)
    cases b with
    | nil => exact absurd (List.cons.inj h).1.symm hc
    | cons d b =>
      obtain ⟨rfl, hrest⟩ := List.cons.inj h
      obtain ⟨rfl, rfl⟩ := ih ha (not_or.1 (List.mem_cons.not.1 hb)).2 hrest
      exact ⟨rfl, rfl⟩

/-- What stands before and behind the last separator is told by the whole text. -/
theorem eq_of_last_separator (hx : separator ∉ x) (hy : separator ∉ y)
    (h : a ++ separator :: x = b ++ separator :: y) : a = b ∧ x = y := by
  have hback := congrArg List.reverse h
  simp only [List.reverse_append, List.reverse_cons, List.append_assoc,
    List.singleton_append] at hback
  obtain ⟨ex, ea⟩ := eq_of_first_separator (mt List.mem_reverse.1 hx) (mt List.mem_reverse.1 hy)
    hback
  exact ⟨List.reverse_injective ea, List.reverse_injective ex⟩

end Separator

/-! ## White space around a text -/

/-- A text is another one without the white space around it. -/
structure Trimmed (s t : List Char) : Prop where
  around : ∃ before behind, s = before ++ (t ++ behind) ∧ (∀ c ∈ before, isBlank c = true) ∧
    ∀ c ∈ behind, isBlank c = true
  first : ∀ c ∈ t.head?, isBlank c = false
  last : ∀ c ∈ t.getLast?, isBlank c = false

section Trimmed

variable {s t : List Char}

theorem not_isBlank_of_head?_dropWhile {c : Char} (h : c ∈ (s.dropWhile isBlank).head?) :
    isBlank c = false := by
  have hhead := List.head?_dropWhile_not isBlank s
  rw [Option.mem_def.1 h] at hhead
  exact hhead

theorem dropWhile_of_head? (hs : ∀ c ∈ s.head?, isBlank c = false) : s.dropWhile isBlank = s := by
  cases s with
  | nil => rfl
  | cons c s => rw [List.dropWhile_cons_of_neg (by simp [hs c rfl])]

theorem trimmed_trim (s : List Char) : Trimmed s (trim s) := by
  have hbehind : trim s ++ ((s.dropWhile isBlank).reverse.takeWhile isBlank).reverse =
      s.dropWhile isBlank := by
    rw [trim, ← List.reverse_append, List.takeWhile_append_dropWhile, List.reverse_reverse]
  refine ⟨⟨s.takeWhile isBlank, ((s.dropWhile isBlank).reverse.takeWhile isBlank).reverse,
    ?_, ?_, ?_⟩, ?_, ?_⟩
  · rw [hbehind, List.takeWhile_append_dropWhile]
  · exact fun c hc => List.mem_takeWhile_imp hc
  · exact fun c hc => List.mem_takeWhile_imp (List.mem_reverse.1 hc)
  · intro c hc
    apply not_isBlank_of_head?_dropWhile (s := s)
    rw [← hbehind, List.head?_append, Option.mem_def.1 hc]
    rfl
  · intro c hc
    rw [trim, List.getLast?_reverse] at hc
    exact not_isBlank_of_head?_dropWhile hc

/-- There is one text without the white space around it. -/
theorem Trimmed.eq_trim (h : Trimmed s t) : t = trim s := by
  obtain ⟨⟨before, behind, rfl, hbefore, hbehind⟩, hfirst, hlast⟩ := h
  rw [trim, List.dropWhile_append_of_pos hbefore]
  cases t with
  | nil =>
    rw [List.nil_append, List.dropWhile_eq_nil_iff.2 hbehind]
    rfl
  | cons c t =>
    have hfront : (c :: t ++ behind).dropWhile isBlank = c :: t ++ behind :=
      dropWhile_of_head? hfirst
    have hback : ∀ c ∈ behind.reverse, isBlank c = true :=
      fun c hc => hbehind c (List.mem_reverse.1 hc)
    rw [hfront, List.reverse_append, List.dropWhile_append_of_pos hback,
      dropWhile_of_head? (by rwa [List.head?_reverse]), List.reverse_reverse]

theorem trim_eq_nil_iff : trim s = [] ↔ ∀ c ∈ s, isBlank c = true := by
  constructor
  · intro h
    obtain ⟨before, behind, hs, hbefore, hbehind⟩ := (trimmed_trim s).around
    rw [h, List.nil_append] at hs
    rw [hs]
    exact List.forall_mem_append.2 ⟨hbefore, hbehind⟩
  · intro h
    rw [trim, List.dropWhile_eq_nil_iff.2 h]
    rfl

end Trimmed

/-! ## Numerals -/

theorem isDigit_of_mem_numeral {n : Nat} {c : Char} (h : c ∈ numeral n) : c.isDigit = true :=
  Nat.isDigit_of_mem_toDigits (by decide) (by decide) h

theorem numeralValue_numeral (n : Nat) : numeralValue (numeral n) = n := by
  have hvalue : numeralValue (numeral n) = Nat.ofDigitChars 10 (Nat.toDigits 10 n) 0 := by
    simp only [numeralValue, numeral, Nat.ofDigitChars, Nat.mul_comm]
  rw [hvalue, Nat.ofDigitChars_ten_toDigits]

/-- Digits behind a text of digits count on from its value. -/
theorem numeralValue_append (a b : List Char) :
    numeralValue (a ++ b) = numeralValue a * 10 ^ b.length + numeralValue b := by
  induction b using List.reverseRecOn with
  | nil => simp [numeralValue]
  | append_singleton b c ih =>
    have hlast (s : List Char) :
        numeralValue (s ++ [c]) = numeralValue s * 10 + (c.toNat - '0'.toNat) := by
      simp [numeralValue]
    rw [← List.append_assoc, hlast, hlast, ih, List.length_append, List.length_singleton,
      pow_succ, Nat.add_mul, Nat.mul_assoc, Nat.add_assoc]

end StatusBadges.Text
