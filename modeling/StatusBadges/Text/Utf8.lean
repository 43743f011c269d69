/-!
# UTF-8

Reading octets as characters. `decode` gives one entry per character and one empty entry per
maximal run of octets that begins a character and does not complete it, or per octet that begins
none. A text is read strictly when no entry is empty, and leniently by putting the replacement
character for each empty one.
-/

namespace StatusBadges.Text.Utf8

/-- A character of which some octets are still owed: its value so far, how many, and the bounds of
the next one. -/
structure Unfinished where
  value : Nat
  owed : Nat
  /-- The least value of the next octet. -/
  low : UInt8
  high : UInt8

/-- What an octet between two characters begins. -/
inductive Start where
  | whole (c : Char)
  | partly (u : Unfinished)
  | nothing

/-- What an octet between two characters begins. The bounds of the second octet leave out overlong
forms, surrogates and values above U+10FFFF. -/
def start (b : UInt8) : Start :=
  if b < 0x80 then .whole (Char.ofNat b.toNat)
  else if b < 0xC2 then .nothing
  else if b < 0xE0 then .partly ⟨b.toNat - 0xC0, 1, 0x80, 0xBF⟩
  else if b = 0xE0 then .partly ⟨0, 2, 0xA0, 0xBF⟩
  else if b = 0xED then .partly ⟨0xD, 2, 0x80, 0x9F⟩
  else if b < 0xF0 then .partly ⟨b.toNat - 0xE0, 2, 0x80, 0xBF⟩
  else if b = 0xF0 then .partly ⟨0, 3, 0x90, 0xBF⟩
  else if b < 0xF4 then .partly ⟨b.toNat - 0xF0, 3, 0x80, 0xBF⟩
  else if b = 0xF4 then .partly ⟨4, 3, 0x80, 0x8F⟩
  else .nothing

/-- The characters of the octets that follow, with an empty entry for each ill-formed run. -/
def decodeFrom : Option Unfinished → List UInt8 → List (Option Char)
  | none, [] => []
  | some _, [] => [none]
  | none, b :: rest =>
    match start b with
    | .whole c => some c :: decodeFrom none rest
    | .partly u => decodeFrom (some u) rest
    | .nothing => none :: decodeFrom none rest
  | some u, b :: rest =>
    if u.low ≤ b ∧ b ≤ u.high then
      if u.owed = 1 then some (Char.ofNat (u.value * 64 + (b.toNat - 0x80))) :: decodeFrom none rest
      else decodeFrom (some ⟨u.value * 64 + (b.toNat - 0x80), u.owed - 1, 0x80, 0xBF⟩) rest
    else
      match start b with
      | .whole c => none :: some c :: decodeFrom none rest
      | .partly v => none :: decodeFrom (some v) rest
      | .nothing => none :: none :: decodeFrom none rest

/-- The characters of a sequence of octets, with an empty entry for each ill-formed run. -/
def decode (bytes : List UInt8) : List (Option Char) := decodeFrom none bytes

/-- The text of a sequence of octets, if all of it is well formed. -/
def text? (bytes : List UInt8) : Option String := ((decode bytes).mapM id).map String.ofList

/-- The text of a sequence of octets, with the replacement character for each ill-formed run. -/
def lenient (bytes : List UInt8) : String :=
  String.ofList ((decode bytes).map fun c => c.getD '\uFFFD')

/-- Octets of ASCII characters are read as these characters. -/
theorem decode_of_ascii {bytes : List UInt8} (h : ∀ b ∈ bytes, b < 0x80) :
    decode bytes = bytes.map fun b => some (Char.ofNat b.toNat) := by
  unfold decode
  induction bytes with
  | nil => rfl
  | cons b rest ih =>
    simp only [List.mem_cons, forall_eq_or_imp] at h
    simp [decodeFrom, start, h.1, ih h.2]

end StatusBadges.Text.Utf8
