/-!
# Searching text

A text is a list of characters. `after?` tests how a text begins, `occurs` whether a text lies
inside another, `split` and `joined` take a text apart at a character and put it together again,
and `lines` gives the lines of a text without what ends them.
-/

namespace StatusBadges.Text

/-! ## Beginnings -/

/-- What follows `lead` in a text that begins with `lead`. -/
def after? : List Char → List Char → Option (List Char)
  | [], s => some s
  | _ :: _, [] => none
  | a :: lead, c :: s => if a = c then after? lead s else none

/-- A text begins with `lead` and goes on with `rest` exactly when it is the two joined. -/
theorem after?_eq_some_iff {lead s rest : List Char} :
    after? lead s = some rest ↔ s = lead ++ rest := by
  induction lead generalizing s with
  | nil => simp [after?]
  | cons a lead ih =>
    cases s with
    | nil => simp [after?]
    | cons c s =>
      by_cases h : a = c
      · simp [after?, h, ih]
      · simp only [after?, if_neg h, List.cons_append, List.cons.injEq]
        exact ⟨fun hn => by simp at hn, fun hc => absurd hc.1.symm h⟩

@[simp] theorem after?_append (lead rest : List Char) : after? lead (lead ++ rest) = some rest :=
  after?_eq_some_iff.2 rfl

/-! ## Occurrences -/

/-- Whether `needle` lies somewhere in a text. -/
def occurs (needle : List Char) : List Char → Bool
  | [] => needle.isEmpty
  | c :: s => (after? needle (c :: s)).isSome || occurs needle s

/-! ## Pieces -/

/-- The pieces of a text between the occurrences of a character. -/
def split (separator : Char) : List Char → List (List Char)
  | [] => [[]]
  | c :: rest =>
    if c = separator then [] :: split separator rest
    else
      match split separator rest with
      | [] => [[c]]
      | piece :: more => (c :: piece) :: more

/-- Texts with a separator between each two. -/
def joined (separator : List Char) : List (List Char) → List Char
  | [] => []
  | [text] => text
  | text :: rest => text ++ separator ++ joined separator rest

theorem split_ne_nil (separator : Char) (s : List Char) : split separator s ≠ [] := by
  cases s with
  | nil => simp [split]
  | cons c rest =>
    simp only [split]
    split
    · simp
    · split <;> simp

/-- The pieces of a text, joined by the character between them, are the text. -/
theorem joined_split (separator : Char) (s : List Char) :
    joined [separator] (split separator s) = s := by
  induction s with
  | nil => rfl
  | cons c rest ih =>
    have hne := split_ne_nil separator rest
    simp only [split]
    cases hs : split separator rest with
    | nil => exact absurd hs hne
    | cons piece more =>
      rw [hs] at ih
      by_cases h : c = separator
      · subst h
        simp only [if_true]
        simpa [joined] using ih
      · simp only [if_neg h]
        cases more with
        | nil => simpa [joined] using ih
        | cons next more => simpa [joined] using ih

/-! ## Lines -/

/-- The lines of a text. A line ends with a line feed, which is left out together with one carriage
return right before it; characters after the last line feed are a line too. -/
def lines : List Char → List (List Char)
  | [] => []
  | '\n' :: rest => [] :: lines rest
  | '\r' :: '\n' :: rest => [] :: lines rest
  | c :: rest =>
    match lines rest with
    | [] => [[c]]
    | line :: more => (c :: line) :: more

end StatusBadges.Text
