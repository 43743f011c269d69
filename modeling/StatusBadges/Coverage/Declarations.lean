import StatusBadges.Text.Blank
import StatusBadges.Text.Search
import StatusBadges.Text.WordCharacter
/-!
# Declarations in sources

A declaration is a keyword, white space and a name. It stands at the start of a line, behind white
space at will. Counting goes on behind a declaration, so that what its white space spans is counted
once.
-/

namespace StatusBadges.Coverage

/-- What follows a declaration with this keyword at the front of a text. -/
def afterDeclaration? (keyword s : List Char) : Option (List Char) :=
  match Text.after? keyword s with
  | none => none
  | some [] => none
  | some (gap :: rest) =>
    if Text.isBlank gap then
      match rest.dropWhile Text.isBlank with
      | [] => none
      | first :: rest =>
        if Text.isWordCharacter first then some (rest.dropWhile Text.isWordCharacter) else none
    else none

theorem length_dropWhile_le {α : Type} (p : α → Bool) (s : List α) :
    (s.dropWhile p).length ≤ s.length := (List.dropWhile_sublist p).length_le

/-- A declaration is not empty. -/
theorem length_of_afterDeclaration? {keyword s rest : List Char}
    (h : afterDeclaration? keyword s = some rest) : rest.length < s.length := by
  unfold afterDeclaration? at h
  split at h
  · cases h
  · cases h
  · rename_i gap more hm
    have hk := congrArg List.length (Text.after?_eq_some_iff.1 hm)
    simp only [List.length_append, List.length_cons] at hk
    split at h
    · have hb := length_dropWhile_le Text.isBlank more
      split at h
      · cases h
      · rename_i first last hl
        rw [hl] at hb
        have hw := length_dropWhile_le Text.isWordCharacter last
        split at h
        · cases h
          simp only [List.length_cons] at hb
          omega
        · cases h
    · cases h

/-- What follows a declaration with this keyword here, at a point that leads its line, with nothing
but white space before it, or does not. -/
def afterDeclarationAt? (keyword : List Char) (leads : Bool) (s : List Char) :
    Option (List Char) :=
  if leads then afterDeclaration? keyword s else none

theorem length_of_afterDeclarationAt? {keyword s rest : List Char} {leads : Bool}
    (h : afterDeclarationAt? keyword leads s = some rest) : rest.length < s.length := by
  unfold afterDeclarationAt? at h
  split at h
  · exact length_of_afterDeclaration? h
  · cases h

/-- Whether the point behind a character leads its line, given whether the point before it does. -/
def leadsBehind (leads : Bool) (c : Char) : Bool := c = '\n' || leads && Text.isBlank c

/-- Counts declarations with this keyword from a point on that leads its line or does not. -/
def countDeclarationsFrom (keyword : List Char) : (leads : Bool) → List Char → Nat
  | _, [] => 0
  | leads, c :: rest =>
    match h : afterDeclarationAt? keyword leads (c :: rest) with
    | some after => 1 + countDeclarationsFrom keyword false after
    | none => countDeclarationsFrom keyword (leadsBehind leads c) rest
termination_by _ s => s.length
decreasing_by
  · exact length_of_afterDeclarationAt? h
  · exact Nat.lt_succ_self rest.length

/-- The number of procedures and functions that a source declares. -/
def countDeclarations (source : List Char) : Nat :=
  countDeclarationsFrom ['p', 'r', 'o', 'c'] true source +
    countDeclarationsFrom ['f', 'u', 'n', 'c'] true source

end StatusBadges.Coverage
