import StatusBadges.Text.Shapeless
/-!
# Quoted text

A text between double quotes in which every character can be seen: quotes and backslashes stand
behind a backslash, and a character without a shape of its own is written as its code point.
-/

namespace StatusBadges.Text.Quoted

/-- One character of a quoted text. -/
def encodeChar (c : Char) : List Char :=
  if c = '\x00' then ['\\', '0']
  else if c = '\t' then ['\\', 't']
  else if c = '\n' then ['\\', 'n']
  else if c = '\r' then ['\\', 'r']
  else if c = '"' then ['\\', '"']
  else if c = '\\' then ['\\', '\\']
  else if isShapeless c then ['\\', 'u', '\x7b'] ++ Nat.toDigits 16 c.toNat ++ ['\x7d']
  else [c]

/-- A text between double quotes. -/
def encode (s : List Char) : List Char := '"' :: (s.flatMap encodeChar ++ ['"'])

/-- A character that has a shape and is neither a quote nor a backslash stands for itself. -/
theorem encodeChar_eq_singleton {c : Char} (hc : isShapeless c = false) (hq : c ≠ '"')
    (hb : c ≠ '\\') : encodeChar c = [c] := by
  have h0 : c ≠ '\x00' := by rintro rfl; exact absurd hc (by decide)
  have ht : c ≠ '\t' := by rintro rfl; exact absurd hc (by decide)
  have hn : c ≠ '\n' := by rintro rfl; exact absurd hc (by decide)
  have hr : c ≠ '\r' := by rintro rfl; exact absurd hc (by decide)
  simp [encodeChar, h0, ht, hn, hr, hq, hb, hc]

end StatusBadges.Text.Quoted
