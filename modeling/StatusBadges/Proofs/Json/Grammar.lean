import Mathlib.Data.List.Forall2
import StatusBadges.Json.Document
import StatusBadges.Json.Record

/-!
# The grammar of JSON

A text is one of a document when the grammar of the format derives it (`IsText`). White space can
stand around every value and name. The characters of a string are spelled by themselves, by an
escape with a letter, or by code units (`Spells`). A printed document is a text of itself
(`isText_pretty`): the printer chooses one spelling for each character and puts its own white space.
-/

namespace StatusBadges.Json

/-! ## Strings -/

namespace Quoted

/-- The spellings of a character inside a string. -/
inductive Spells : Char → List Char → Prop
  /-- A quote, a backslash and a control character cannot stand for themselves. -/
  | plain {c : Char} (hquote : c ≠ '"') (hback : c ≠ '\\') (hcontrol : 0x20 ≤ c.toNat) :
      Spells c [c]
  | letter {c e : Char} (h : letterEscape? e = some c) : Spells c ['\\', e]
  | unit {c : Char} {digits : List Char} (h : codeUnit? digits = some (c.toNat, [])) :
      Spells c ('\\' :: 'u' :: digits)
  /-- A character beyond the code units is spelled by two surrogates. -/
  | pair {c : Char} {first second : List Char} {lead trail : Nat}
      (hfirst : codeUnit? first = some (lead, [])) (hlead : 0xD800 ≤ lead ∧ lead < 0xDC00)
      (hsecond : codeUnit? second = some (trail, [])) (htrail : 0xDC00 ≤ trail ∧ trail < 0xE000)
      (hc : c.toNat = 0x10000 + (lead - 0xD800) * 0x400 + (trail - 0xDC00)) :
      Spells c ('\\' :: 'u' :: (first ++ '\\' :: 'u' :: second))

/-- A string between its quotes. -/
def IsText (s text : List Char) : Prop :=
  ∃ spellings, List.Forall₂ Spells s spellings ∧ text = '"' :: (spellings.flatten ++ ['"'])

theorem hexValue?_hexDigit : ∀ n < 16, hexValue? (hexDigit n) = some n := by decide

/-- A control character has a code unit below 32. -/
theorem codeUnit?_of_control {n : Nat} (h : n < 0x20) (rest : List Char) :
    codeUnit? ('0' :: '0' :: hexDigit (n / 16) :: hexDigit (n % 16) :: rest) = some (n, rest) := by
  have hhigh := hexValue?_hexDigit (n / 16) (by omega)
  have hlow := hexValue?_hexDigit (n % 16) (by omega)
  have hzero : hexValue? '0' = some 0 := rfl
  have hsum : n / 16 * 16 + n % 16 = n := Nat.div_add_mod' _ _
  simp [codeUnit?, hhigh, hlow, hzero, hsum]

theorem spells_encodeChar (c : Char) : Spells c (encodeChar c) := by
  unfold encodeChar
  iterate 7
    split
    · next h =>
      subst h
      exact .letter rfl
  split
  · next h => exact .unit (codeUnit?_of_control h [])
  · next hquote hback _ _ _ _ _ hcontrol => exact .plain hquote hback (Nat.not_lt.1 hcontrol)

theorem isText_encode (s : List Char) : IsText s (encode s) := by
  refine ⟨s.map encodeChar, ?_, ?_⟩
  · induction s with
    | nil => exact .nil
    | cons c s ih => exact .cons (spells_encodeChar c) ih
  · rw [encode, List.flatMap_def]

end Quoted

/-! ## Numbers -/

/-- One digit or more. -/
def IsDigits (s : List Char) : Prop := s ≠ [] ∧ ∀ c ∈ s, c.isDigit = true

/-- A dash for a negative number, digits of which the first is no zero unless it stands alone, and a
fraction and an exponent at will. -/
def IsNumber (text : List Char) : Prop :=
  ∃ sign whole fraction exponent, text = sign ++ whole ++ fraction ++ exponent ∧
    (sign = [] ∨ sign = ['-']) ∧
    (whole = ['0'] ∨ IsDigits whole ∧ whole.head? ≠ some '0') ∧
    (fraction = [] ∨ ∃ digits, IsDigits digits ∧ fraction = '.' :: digits) ∧
    (exponent = [] ∨ ∃ letter mark digits, (letter = 'e' ∨ letter = 'E') ∧
      (mark = [] ∨ mark = ['+'] ∨ mark = ['-']) ∧ IsDigits digits ∧
      exponent = letter :: (mark ++ digits))

/-! ## Documents -/

def IsBlank (s : List Char) : Prop := ∀ c ∈ s, isSpace c = true

/-- Texts of values with commas between them and white space around each of them. -/
inductive Separated {α : Type} (IsOne : α → List Char → Prop) : List α → List Char → Prop
  | one {value : α} {before text behind : List Char} (hbefore : IsBlank before)
      (htext : IsOne value text) (hbehind : IsBlank behind) :
      Separated IsOne [value] (before ++ text ++ behind)
  | more {value : α} {values : List α} {before text behind rest : List Char}
      (hbefore : IsBlank before) (htext : IsOne value text) (hbehind : IsBlank behind)
      (hrest : Separated IsOne values rest) :
      Separated IsOne (value :: values) (before ++ text ++ behind ++ ',' :: rest)

mutual
/-- The text of a value. -/
inductive IsText : Json → List Char → Prop
  | null : IsText .null ['n', 'u', 'l', 'l']
  | true : IsText (.bool true) ['t', 'r', 'u', 'e']
  | false : IsText (.bool false) ['f', 'a', 'l', 's', 'e']
  | number {text : List Char} (h : IsNumber text) : IsText (.number text) text
  | string {s text : List Char} (h : Quoted.IsText s text) : IsText (.string s) text
  | emptyArray {space : List Char} (h : IsBlank space) :
      IsText (.array []) ('[' :: (space ++ [']']))
  | array {items : List Json} {inside : List Char} (h : Separated IsText items inside) :
      IsText (.array items) ('[' :: (inside ++ [']']))
  | emptyObject {space : List Char} (h : IsBlank space) :
      IsText (.object []) ('\x7b' :: (space ++ ['\x7d']))
  | object {fields : List (List Char × Json)} {inside : List Char}
      (h : Separated IsField fields inside) :
      IsText (.object fields) ('\x7b' :: (inside ++ ['\x7d']))

/-- The text of a name with its value. -/
inductive IsField : List Char × Json → List Char → Prop
  | field {name nameText text before behind : List Char} {value : Json}
      (hname : Quoted.IsText name nameText) (hbefore : IsBlank before) (hbehind : IsBlank behind)
      (h : IsText value text) :
      IsField (name, value) (nameText ++ before ++ ':' :: (behind ++ text))
end

/-! ## Printed documents -/

mutual
/-- Every number in the document has the text of a number. -/
def Numeric : Json → Prop
  | .number text => IsNumber text
  | .array items => NumericItems items
  | .object fields => NumericFields fields
  | _ => True

def NumericItems : List Json → Prop
  | [] => True
  | item :: rest => Numeric item ∧ NumericItems rest

def NumericFields : List (List Char × Json) → Prop
  | [] => True
  | (_, value) :: rest => Numeric value ∧ NumericFields rest
end

theorem isBlank_nil : IsBlank [] := List.forall_mem_nil _

theorem isBlank_newline (level : Nat) : IsBlank (newline level) := by
  intro c hc
  rcases List.mem_cons.1 hc with rfl | hc
  · rfl
  · rw [List.eq_of_mem_replicate hc]
    rfl

/-- The texts that a block puts on lines of their own are separated. -/
theorem separated_joined {α : Type} {IsOne : α → List Char → Prop} {values : List α}
    {texts : List (List Char)} (h : List.Forall₂ IsOne values texts) (hne : values ≠ [])
    (level outer : Nat) :
    Separated IsOne values
      (newline level ++ Text.joined (',' :: newline level) texts ++ newline outer) := by
  induction h with
  | nil => exact absurd rfl hne
  | @cons value text values texts htext hrest ih =>
    cases hrest with
    | nil => exact .one (isBlank_newline level) htext (isBlank_newline outer)
    | cons _ _ =>
      have hmore := Separated.more (isBlank_newline level) htext isBlank_nil (ih (by simp))
      simpa [Text.joined] using hmore

theorem block_eq {texts : List (List Char)} (hne : texts ≠ []) (level : Nat)
    (opening closing : Char) :
    block level opening closing texts = opening ::
      (newline (level + 1) ++ Text.joined (',' :: newline (level + 1)) texts ++ newline level ++
        [closing]) := by
  rw [block, if_neg (by simpa using hne)]
  rfl

theorem isText_array {items : List Json} {texts : List (List Char)}
    (h : List.Forall₂ IsText items texts) (level : Nat) :
    IsText (.array items) (block level '[' ']' texts) := by
  cases h with
  | nil => exact .emptyArray isBlank_nil
  | cons htext hrest =>
    rw [block_eq (by simp)]
    exact .array (separated_joined (.cons htext hrest) (by simp) _ _)

theorem isText_object {fields : List (List Char × Json)} {texts : List (List Char)}
    (h : List.Forall₂ IsField fields texts) (level : Nat) :
    IsText (.object fields) (block level '\x7b' '\x7d' texts) := by
  cases h with
  | nil => exact .emptyObject isBlank_nil
  | cons htext hrest =>
    rw [block_eq (by simp)]
    exact .object (separated_joined (.cons htext hrest) (by simp) _ _)

theorem isField_pretty {name text : List Char} {value : Json} (h : IsText value text) :
    IsField (name, value) (Quoted.encode name ++ [':', ' '] ++ text) := by
  have hspace : IsBlank [' '] := by simp [IsBlank, isSpace]
  have hfield := IsField.field (Quoted.isText_encode name) isBlank_nil hspace h
  simpa using hfield

mutual
/-- A printed document is a text of itself, at each level. -/
theorem isText_prettyAt (level : Nat) : ∀ document : Json, document.Numeric →
    IsText document (prettyAt level document)
  | .null, _ => .null
  | .bool true, _ => .true
  | .bool false, _ => .false
  | .number _, h => .number h
  | .string s, _ => .string (Quoted.isText_encode s)
  | .array items, h => isText_array (isText_prettyItems (level + 1) items h) level
  | .object fields, h => isText_object (isField_prettyFields (level + 1) fields h) level

theorem isText_prettyItems (level : Nat) : ∀ items : List Json, NumericItems items →
    List.Forall₂ IsText items (prettyItems level items)
  | [], _ => .nil
  | item :: rest, h => .cons (isText_prettyAt level item h.1) (isText_prettyItems level rest h.2)

theorem isField_prettyFields (level : Nat) : ∀ fields : List (List Char × Json),
    NumericFields fields → List.Forall₂ IsField fields (prettyFields level fields)
  | [], _ => .nil
  | (_, value) :: rest, h =>
    .cons (isField_pretty (isText_prettyAt level value h.1)) (isField_prettyFields level rest h.2)
end

/-- **A printed document is a text of the grammar.** -/
theorem isText_pretty {document : Json} (h : document.Numeric) : IsText document document.pretty :=
  isText_prettyAt 0 document h

end StatusBadges.Json
