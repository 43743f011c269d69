import StatusBadges.Binary64.Decimal
import StatusBadges.Json.Quoted
import StatusBadges.Text.Search
/-!
# JSON documents

A document is written on one line (`compact`) or with one field or item on each line (`pretty`).
The fields of an object keep the order in which they are given.
-/

namespace StatusBadges

/-- A JSON document. A number is kept as its text. -/
inductive Json where
  | null
  | bool (b : Bool)
  /-- A number with its text. -/
  | number (text : List Char)
  | string (s : List Char)
  | array (items : List Json)
  /-- Named documents, in the order in which they are written. -/
  | object (fields : List (List Char × Json))

namespace Json

/-! ## Numbers -/

def ofNat (n : Nat) : Json := .number (Text.numeral n)

/-- The text of a positive number with these significant digits, the first of which counts
`10 ^ exponent`. It is positional from `10 ^ -5` up to below `10 ^ 16`, with a fraction always, and
scientific elsewhere, with the sign of the exponent always. -/
def decimalText (digits : List Char) (exponent : Int) : List Char :=
  if -5 ≤ exponent ∧ exponent ≤ 15 then
    if exponent < 0 then
      ['0', '.'] ++ List.replicate (-exponent - 1).toNat '0' ++ digits
    else
      let count := exponent.toNat + 1
      if digits.length ≤ count then
        digits ++ List.replicate (count - digits.length) '0' ++ ['.', '0']
      else digits.take count ++ '.' :: digits.drop count
  else
    digits.take 1 ++ (if digits.length = 1 then [] else '.' :: digits.drop 1) ++
      ['e', if exponent < 0 then '-' else '+'] ++ Text.numeral exponent.natAbs

/-- A binary64 number with the fewest digits that are read back as it. What is no finite number
has no number text and is written as absent. -/
def ofBinary64 : Binary64 → Json
  | .finite negative units =>
    .number <| (if negative then ['-'] else []) ++
      if units = 0 then ['0', '.', '0']
      else decimalText (Binary64.shortest units).1 (Binary64.shortest units).2
  | _ => .null

def ofString (s : String) : Json := .string s.toList

/-! ## Text -/

mutual
/-- The text of a document on one line, without spaces. -/
def compact : Json → List Char
  | .null => ['n', 'u', 'l', 'l']
  | .bool true => ['t', 'r', 'u', 'e']
  | .bool false => ['f', 'a', 'l', 's', 'e']
  | .number text => text
  | .string s => Quoted.encode s
  | .array items => '[' :: Text.joined [','] (compactItems items) ++ [']']
  | .object fields => '\x7b' :: Text.joined [','] (compactFields fields) ++ ['\x7d']

def compactItems : List Json → List (List Char)
  | [] => []
  | item :: rest => compact item :: compactItems rest

def compactFields : List (List Char × Json) → List (List Char)
  | [] => []
  | (name, value) :: rest => (Quoted.encode name ++ ':' :: compact value) :: compactFields rest
end

/-- A new line indented by two spaces for each level. -/
def newline (level : Nat) : List Char := '\n' :: List.replicate (2 * level) ' '

/-- Texts between brackets, each on a line of its own one level deeper. -/
def block (level : Nat) (opening closing : Char) (texts : List (List Char)) : List Char :=
  if texts.isEmpty then [opening, closing]
  else
    opening :: newline (level + 1) ++ Text.joined (',' :: newline (level + 1)) texts ++
      newline level ++ [closing]

mutual
/-- The text of a document with each item and field on a line of its own. -/
def prettyAt (level : Nat) : Json → List Char
  | .null => ['n', 'u', 'l', 'l']
  | .bool true => ['t', 'r', 'u', 'e']
  | .bool false => ['f', 'a', 'l', 's', 'e']
  | .number text => text
  | .string s => Quoted.encode s
  | .array items => block level '[' ']' (prettyItems (level + 1) items)
  | .object fields => block level '\x7b' '\x7d' (prettyFields (level + 1) fields)

def prettyItems (level : Nat) : List Json → List (List Char)
  | [] => []
  | item :: rest => prettyAt level item :: prettyItems level rest

def prettyFields (level : Nat) : List (List Char × Json) → List (List Char)
  | [] => []
  | (name, value) :: rest =>
    (Quoted.encode name ++ [':', ' '] ++ prettyAt level value) :: prettyFields level rest
end

/-- The text of a document with each item and field on a line of its own. -/
def pretty (document : Json) : List Char := prettyAt 0 document

end Json
end StatusBadges
