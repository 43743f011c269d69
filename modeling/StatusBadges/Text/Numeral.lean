/-!
# Numerals

Natural numbers and integers in decimal notation, without leading zeros.
-/

namespace StatusBadges.Text

def numeral (n : Nat) : List Char := Nat.toDigits 10 n

/-- The decimal digits of an integer, behind a dash if it is negative. -/
def signedNumeral (n : Int) : List Char := (if n < 0 then ['-'] else []) ++ numeral n.natAbs

/-- The value of a text of ASCII digits. -/
def numeralValue (s : List Char) : Nat := s.foldl (fun n c => n * 10 + (c.toNat - '0'.toNat)) 0

end StatusBadges.Text
