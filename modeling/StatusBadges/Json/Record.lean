import StatusBadges.Json.Quoted
import StatusBadges.Text.Search
/-!
# Reading JSON records

A record is written as an object or as an array. In an object each known field stands once, in
any order, and other fields are passed over if their values are well formed. In an array the
values of the known fields stand in order, and nothing else. `skipValue` passes over any value.
-/

namespace StatusBadges.Json

/-- White space between the parts of a document. -/
def isSpace (c : Char) : Bool := c = ' ' || c = '\n' || c = '\t' || c = '\r'

def skipSpace (s : List Char) : List Char := s.dropWhile isSpace

/-! ## Passing over a value -/

def skipDigits? : List Char → Option (List Char)
  | c :: rest => if c.isDigit then some (rest.dropWhile Char.isDigit) else none
  | [] => none

/-- What follows the exponent of a number, which may be missing. -/
def skipExponent? : List Char → Option (List Char)
  | c :: rest =>
    if c = 'e' ∨ c = 'E' then
      match rest with
      | '+' :: more => skipDigits? more
      | '-' :: more => skipDigits? more
      | more => skipDigits? more
    else some (c :: rest)
  | [] => some []

/-- What follows the fraction and exponent of a number, which may be missing. -/
def skipFraction? : List Char → Option (List Char)
  | '.' :: rest => (skipDigits? rest).bind skipExponent?
  | rest => skipExponent? rest

/-- What follows a number without its sign. A leading zero stands alone. -/
def skipUnsigned? : List Char → Option (List Char)
  | '0' :: c :: rest => if c.isDigit then none else skipFraction? (c :: rest)
  | ['0'] => some []
  | s => (skipDigits? s).bind skipFraction?

def skipNumber? : List Char → Option (List Char)
  | '-' :: rest => skipUnsigned? rest
  | rest => skipUnsigned? rest

mutual
/-- What follows a value at the front of a text. The fuel bounds the number of steps. -/
def skipValue : Nat → List Char → Option (List Char)
  | 0, _ => none
  | fuel + 1, s =>
    match skipSpace s with
    | '"' :: rest => Quoted.skip rest
    | '[' :: rest =>
      match skipSpace rest with
      | ']' :: rest => some rest
      | rest => skipItems fuel rest
    | '\x7b' :: rest =>
      match skipSpace rest with
      | '\x7d' :: rest => some rest
      | rest => skipFields fuel rest
    | 't' :: rest => Text.after? ['r', 'u', 'e'] rest
    | 'f' :: rest => Text.after? ['a', 'l', 's', 'e'] rest
    | 'n' :: rest => Text.after? ['u', 'l', 'l'] rest
    | rest => skipNumber? rest

/-- What follows the items of an array and its closing bracket. -/
def skipItems : Nat → List Char → Option (List Char)
  | 0, _ => none
  | fuel + 1, s =>
    match skipValue fuel s with
    | none => none
    | some rest =>
      match skipSpace rest with
      | ',' :: rest => skipItems fuel rest
      | ']' :: rest => some rest
      | _ => none

/-- What follows the fields of an object and its closing brace. -/
def skipFields : Nat → List Char → Option (List Char)
  | 0, _ => none
  | fuel + 1, s =>
    match skipSpace s with
    | '"' :: rest =>
      match Quoted.skip rest with
      | none => none
      | some rest =>
        match skipSpace rest with
        | ':' :: rest =>
          match skipValue fuel rest with
          | none => none
          | some rest =>
            match skipSpace rest with
            | ',' :: rest => skipFields fuel rest
            | '\x7d' :: rest => some rest
            | _ => none
        | _ => none
    | _ => none
end

/-- What follows a value. Each step of passing over it uses up a character of the text, or enters
the value after such a step. -/
def skipValue? (s : List Char) : Option (List Char) := skipValue (2 * s.length + 2) s

/-! ## Records -/

/-- A reader of a value at the front of a text, which also gives the rest of the text. -/
abbrev Reader (α : Type) := List Char → Option (α × List Char)

def readString : Reader (List Char) := fun s =>
  match skipSpace s with
  | '"' :: rest => Quoted.decode rest
  | _ => none

/-- The known fields of a record with the readers of their values, in order. -/
abbrev Shape (α : Type) := List (List Char × Reader α)

/-- Reads the fields of an object behind its opening brace or a comma, with those already read. -/
def readFields {α : Type} (shape : Shape α) :
    Nat → List (List Char × α) → Reader (List (List Char × α))
  | 0, _, _ => none
  | fuel + 1, found, s =>
    match skipSpace s with
    | '"' :: rest =>
      match Quoted.decode rest with
      | none => none
      | some (name, rest) =>
        match skipSpace rest with
        | ':' :: rest =>
          let value : Option (List (List Char × α) × List Char) :=
            match shape.lookup name with
            | none => (skipValue? rest).map fun rest => (found, rest)
            | some reader =>
              if (found.lookup name).isSome then none
              else (reader rest).map fun (value, rest) => (found ++ [(name, value)], rest)
          match value with
          | none => none
          | some (found, rest) =>
            match skipSpace rest with
            | ',' :: rest => readFields shape fuel found rest
            | '\x7d' :: rest => some (found, rest)
            | _ => none
        | _ => none
    | _ => none

/-- Reads values of the given fields behind the opening bracket of an array. -/
def readItems {α : Type} : Shape α → (first : Bool) → Reader (List (List Char × α))
  | [], _, s =>
    match skipSpace s with
    | ']' :: rest => some ([], rest)
    | _ => none
  | (name, reader) :: shape, first, s => do
    let s ← if first then some s else
      match skipSpace s with
      | ',' :: rest => some rest
      | _ => none
    let (value, rest) ← reader s
    let (values, rest) ← readItems shape false rest
    return ((name, value) :: values, rest)

/-- Reads a record and gives the values of its known fields by their names. -/
def readRecord {α : Type} (shape : Shape α) : Reader (List (List Char × α)) := fun s =>
  match skipSpace s with
  | '[' :: rest => readItems shape true rest
  | '\x7b' :: rest =>
    match skipSpace rest with
    | '\x7d' :: rest => some ([], rest)
    | rest => readFields shape (rest.length + 1) [] rest
  | _ => none

/-- Reads a whole text as one value: nothing but white space follows it. -/
def readAll? {α : Type} (reader : Reader α) (s : List Char) : Option α :=
  match reader s with
  | some (value, rest) => if (skipSpace rest).isEmpty then some value else none
  | none => none

end StatusBadges.Json
