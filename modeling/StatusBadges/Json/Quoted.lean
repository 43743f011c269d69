/-!
# JSON strings

Inside a JSON string a quote, a backslash and each control character stand behind a backslash, and
every other character stands for itself. `encode` writes such text and `decode` reads it up to the
closing quote. Reading is more liberal than writing: it accepts every escape of the format.
`skip` passes over a string without reading it, and does not look at what a code unit escape
stands for.
-/

namespace StatusBadges.Json.Quoted

/-! ## Writing -/

/-- The sixteen digits of code unit escapes. -/
def hexDigit (n : Nat) : Char := Nat.digitChar n

/-- One character inside a string. -/
def encodeChar (c : Char) : List Char :=
  if c = '"' then ['\\', '"']
  else if c = '\\' then ['\\', '\\']
  else if c = '\x08' then ['\\', 'b']
  else if c = '\t' then ['\\', 't']
  else if c = '\n' then ['\\', 'n']
  else if c = '\x0c' then ['\\', 'f']
  else if c = '\r' then ['\\', 'r']
  else if c.toNat < 0x20 then
    ['\\', 'u', '0', '0', hexDigit (c.toNat / 16), hexDigit (c.toNat % 16)]
  else [c]

def encode (s : List Char) : List Char := '"' :: (s.flatMap encodeChar ++ ['"'])

/-! ## Reading -/

/-- The value of a hexadecimal digit of either case. -/
def hexValue? (c : Char) : Option Nat :=
  if '0' ≤ c ∧ c ≤ '9' then some (c.toNat - '0'.toNat)
  else if 'a' ≤ c ∧ c ≤ 'f' then some (c.toNat - 'a'.toNat + 10)
  else if 'A' ≤ c ∧ c ≤ 'F' then some (c.toNat - 'A'.toNat + 10)
  else none

/-- The code unit of four hexadecimal digits at the front of a text, and the rest. -/
def codeUnit? : List Char → Option (Nat × List Char)
  | a :: b :: c :: d :: rest => do
    let a ← hexValue? a
    let b ← hexValue? b
    let c ← hexValue? c
    let d ← hexValue? d
    return (((a * 16 + b) * 16 + c) * 16 + d, rest)
  | _ => none

/-- The character of an escape with one letter. -/
def letterEscape? (c : Char) : Option Char :=
  if c = '"' ∨ c = '\\' ∨ c = '/' then some c
  else if c = 'b' then some '\x08'
  else if c = 'f' then some '\x0c'
  else if c = 'n' then some '\n'
  else if c = 'r' then some '\r'
  else if c = 't' then some '\t'
  else none

/-- The character of a code unit escape behind its first two characters. A leading surrogate needs
a trailing one in an escape right behind it, and a trailing one needs a leading one before it. -/
def unicodeEscape? (s : List Char) : Option (Char × List Char) :=
  match codeUnit? s with
  | none => none
  | some (unit, rest) =>
    if unit < 0xD800 ∨ 0xE000 ≤ unit then some (Char.ofNat unit, rest)
    else if 0xDC00 ≤ unit then none
    else
      match rest with
      | '\\' :: 'u' :: more =>
        match codeUnit? more with
        | none => none
        | some (trail, rest) =>
          if 0xDC00 ≤ trail ∧ trail < 0xE000 then
            some (Char.ofNat (0x10000 + (unit - 0xD800) * 0x400 + (trail - 0xDC00)), rest)
          else none
      | _ => none

/-- The character at the front of a string's inside, and the rest. -/
def decodeChar? : List Char → Option (Char × List Char)
  | [] => none
  | c :: rest =>
    if c = '\\' then
      match rest with
      | [] => none
      | e :: rest =>
        if e = 'u' then unicodeEscape? rest else (letterEscape? e).map fun d => (d, rest)
    else if c.toNat < 0x20 then none
    else some (c, rest)

theorem length_of_codeUnit? {s rest : List Char} {n : Nat} (h : codeUnit? s = some (n, rest)) :
    rest.length < s.length := by
  match s, h with
  | a :: b :: c :: d :: more, h =>
    cases ha : hexValue? a <;> cases hb : hexValue? b <;> cases hc : hexValue? c <;>
      cases hd : hexValue? d <;> simp [codeUnit?, ha, hb, hc, hd] at h
    rw [← h.2]
    simp only [List.length_cons]
    omega

theorem length_of_unicodeEscape? {s rest : List Char} {c : Char}
    (h : unicodeEscape? s = some (c, rest)) : rest.length < s.length := by
  unfold unicodeEscape? at h
  split at h
  · simp at h
  · rename_i unit mid hmid
    have hm := length_of_codeUnit? hmid
    split at h
    · simp only [Option.some.injEq, Prod.mk.injEq] at h
      rw [← h.2]; exact hm
    · split at h
      · simp at h
      · split at h
        · rename_i more
          split at h
          · simp at h
          · rename_i trail last hlast
            have hl := length_of_codeUnit? hlast
            split at h
            · simp only [Option.some.injEq, Prod.mk.injEq] at h
              rw [← h.2]
              simp only [List.length_cons] at hm
              omega
            · simp at h
        · simp at h

/-- Reading a character uses up part of the text. -/
theorem length_of_decodeChar? {s rest : List Char} {c : Char}
    (h : decodeChar? s = some (c, rest)) : rest.length < s.length := by
  match s, h with
  | a :: more, h =>
    simp only [decodeChar?] at h
    split at h
    · match more, h with
      | e :: more, h =>
        simp only at h
        split at h
        · have := length_of_unicodeEscape? h
          simp only [List.length_cons]; omega
        · simp only [Option.map_eq_some_iff, Prod.mk.injEq] at h
          obtain ⟨d, -, -, rfl⟩ := h
          simp only [List.length_cons]; omega
    · split at h
      · simp at h
      · simp only [Option.some.injEq, Prod.mk.injEq] at h
        rw [← h.2]; simp

/-- The text of a string behind its opening quote, and what follows its closing quote. -/
def decode (s : List Char) : Option (List Char × List Char) :=
  match s with
  | [] => none
  | '"' :: rest => some ([], rest)
  | s =>
    match h : decodeChar? s with
    | none => none
    | some (c, rest) =>
      have := length_of_decodeChar? h
      (decode rest).map fun (text, after) => (c :: text, after)
termination_by s.length

/-- What follows the closing quote of a string. Escapes need their digits only. -/
def skip : List Char → Option (List Char)
  | [] => none
  | '"' :: rest => some rest
  | '\\' :: 'u' :: a :: b :: c :: d :: rest =>
    if (codeUnit? [a, b, c, d]).isSome then skip rest else none
  | '\\' :: e :: rest => if (letterEscape? e).isSome then skip rest else none
  | c :: rest => if c = '\\' ∨ c.toNat < 0x20 then none else skip rest

end StatusBadges.Json.Quoted
