import StatusBadges.CommandLine.Flag
/-!
# Reading the words of a command line

The words are read from left to right, and the first one that ends the reading decides: a wrong
word, or one that asks for help or for the version. A value that stands as a word of its own is
taken in when the next flag of its level comes, or when all words are read; so the words behind the
subcommand are read before the last value in front of it is taken in.
-/

namespace StatusBadges.CommandLine

/-- Why there is nothing to perform. -/
inductive Stop where
  | misuse
  | help
  | version (level : Level)
  deriving DecidableEq, Repr

/-- The flags of one level with their values, oldest first. A flag that nothing follows has an empty
value. -/
abbrev Given := List (Flag × String)

/-- How far the reading of one level is. -/
structure Reading where
  given : Given
  /-- The last flag if its value is a word of its own, with that word when it was read. -/
  pending : Option (Flag × Option String)

namespace Reading

def start : Reading := ⟨[], none⟩

/-- Whether the next word must be the value of the last flag. -/
def awaitsValue (r : Reading) : Bool :=
  match r.pending with
  | some (_, none) => true
  | _ => false

/-- Takes in a flag. No flag is given twice at one level, and no path is empty. -/
def take (r : Reading) (f : Flag) (value : String) : Except Stop Reading :=
  if (r.given.lookup f).isSome || (f.operand = .path && value = "") then .error .misuse
  else .ok { r with given := r.given ++ [(f, value)] }

/-- Takes in the last flag if its value was a word of its own. A value that never came is missed. -/
def settle (r : Reading) : Except Stop Reading :=
  match r.pending with
  | none => .ok r
  | some (_, none) => .error .misuse
  | some (f, some value) => take ⟨r.given, none⟩ f value

/-- Reads a flag that nothing follows. -/
def readSwitch (level : Level) (r : Reading) (f : Flag) : Except Stop Reading := do
  let r ← r.settle
  match f with
  | .help => .error .help
  | .version => .error (.version level)
  | f => r.take f ""

/-- Reads a flag with its value in the same word. -/
def readAttached (r : Reading) (f : Flag) (value : List Char) : Except Stop Reading := do
  (← r.settle).take f (String.ofList value)

/-- Reads a flag whose value is the next word. -/
def readDetached (r : Reading) (f : Flag) : Except Stop Reading := do
  return { ← r.settle with pending := some (f, none) }

/-- Reads a word behind its two dashes: the name of a flag, and its value behind an equals sign. -/
def readLong (level : Level) (r : Reading) (word : List Char) : Except Stop Reading :=
  match (Flag.ofLevel level).find? fun f => f.long.toList = word.takeWhile (· != '=') with
  | none => .error .misuse
  | some f =>
    match f.operand, word.dropWhile (· != '=') with
    | .nothing, [] => r.readSwitch level f
    | .nothing, _ :: _ => .error .misuse
    | _, [] => r.readDetached f
    | _, _ :: value => r.readAttached f value

/-- Reads a word behind its one dash: short names of flags. The first one with a value takes the
rest of the word for it, without an equals sign at its front, or else the next word. -/
def readShort (level : Level) : Reading → List Char → Except Stop Reading
  | r, [] => .ok r
  | r, c :: rest =>
    match (Flag.ofLevel level).find? fun f => f.short? = some c with
    | none => .error .misuse
    | some f =>
      match f.operand, rest with
      | .nothing, _ => do readShort level (← r.readSwitch level f) rest
      | _, [] => r.readDetached f
      | _, '=' :: value => r.readAttached f value
      | _, value => r.readAttached f value

end Reading

/-- What the word `help` asks for, given the words behind it: help about at most one subcommand. -/
def helpAbout : List String → Stop
  | [] => .help
  | [topic] => if topic = "help" || (Subcommand.ofName? topic).isSome then .help else .misuse
  | _ => .misuse

/-- Reads the words of one level up to a subcommand, which only the first level has. A word that
begins with a dash is no value, except for the single dash. Nothing may follow two dashes. -/
def readLevel (level : Level) :
    Reading → List String → Except Stop (Reading × Option (Subcommand × List String))
  | r, [] => .ok (r, none)
  | r, word :: rest =>
    match word.toList with
    | ['-', '-'] => if rest.isEmpty then .ok (r, none) else .error .misuse
    | '-' :: '-' :: name => do readLevel level (← r.readLong level name) rest
    | '-' :: c :: more => do readLevel level (← r.readShort level (c :: more)) rest
    | _ =>
      match r.pending with
      | some (f, none) => readLevel level { r with pending := some (f, some word) } rest
      | _ =>
        if level = none then
          if word = "help" then .error (helpAbout rest)
          else
            match Subcommand.ofName? word with
            | some s => .ok (r, some (s, rest))
            | none => .error .misuse
        else .error .misuse

/-- What the words of a command line give. -/
structure Words where
  before : Given
  /-- The subcommand, if there is one, with the flags behind it. -/
  chosen : Option (Subcommand × Given)

def Words.read (words : List String) : Except Stop Words := do
  match ← readLevel none .start words with
  | (first, none) => return ⟨(← first.settle).given, none⟩
  | (first, some (s, rest)) =>
    let (behind, _) ← readLevel (some s) .start rest
    let behind ← behind.settle
    let first ← first.settle
    return ⟨first.given, some (s, behind.given)⟩

end StatusBadges.CommandLine
