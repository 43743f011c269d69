import StatusBadges.Text.Search
/-!
# Paths

A path is a text. Its components are what the text says about directories: repeated slashes and
inner or trailing dots say nothing, a leading dot and double dots are kept. Paths are compared by
their components and are never normalised.
-/

namespace StatusBadges

/-- The name of an entry of a directory. -/
abbrev Name := List Char

namespace Name

/-- Whether an entry can have the name: it is not empty, is none of the dots, and holds no slash and
no NUL. -/
def isPlain (n : Name) : Bool :=
  n != [] && n != ['.'] && n != ['.', '.'] && !n.contains '/' && !n.contains '\x00'

/-- The two parts of a name around its last dot, unless that is its first character. -/
def atLastDot? (n : Name) : Option (List Char × List Char) :=
  match n.reverse.dropWhile (· != '.') with
  | [] => none
  | _ :: before =>
    if before.isEmpty then none
    else some (before.reverse, (n.reverse.takeWhile (· != '.')).reverse)

/-- The part of a name after its last dot, unless that is its first character. -/
def extension? (n : Name) : Option (List Char) := (atLastDot? n).map (·.2)

/-- A name without its extension and the dot before it. -/
def stem (n : Name) : Name :=
  match atLastDot? n with
  | some (before, _) => before
  | none => n

end Name

structure Path where
  chars : List Char
  deriving DecidableEq, Repr

namespace Path

def ofString (s : String) : Path := ⟨s.toList⟩

def toString (p : Path) : String := String.ofList p.chars

/-! ## Components -/

/-- What a part of a path says. -/
inductive Component where
  | root
  /-- Start at the working directory, said by a leading dot. -/
  | here
  | up
  | name (n : Name)
  deriving DecidableEq, Repr

/-- Whether a path starts at the root of the file system. -/
def isAbsolute (p : Path) : Bool := p.chars.head? = some '/'

/-- The parts of a path between slashes. -/
def pieces (p : Path) : List (List Char) := Text.split '/' p.chars

/-- Whether a relative path begins with the part that is a single dot. -/
def startsHere (p : Path) : Bool := p.pieces.head? = some ['.']

/-- Whether a part of a path says nothing. -/
def isIdle (piece : List Char) : Bool := piece = [] || piece = ['.']

/-- What a part behind the start of a path says, if anything. -/
def Component.ofPiece? (piece : List Char) : Option Component :=
  if isIdle piece then none
  else if piece = ['.', '.'] then some .up
  else some (.name piece)

def components (p : Path) : List Component :=
  (if p.isAbsolute then [.root] else if p.startsHere then [.here] else []) ++
    p.pieces.filterMap Component.ofPiece?

def Component.text : Component → List Char
  | .root => ['/']
  | .here => ['.']
  | .up => ['.', '.']
  | .name n => n

/-! ## Ends of a path -/

/-- The parts of a path behind its start. -/
def body (p : Path) : List (List Char) :=
  if p.isAbsolute || p.startsHere then p.pieces.tail else p.pieces

/-- The path with the same start and these parts behind it. -/
def withBody (p : Path) (parts : List (List Char)) : Path :=
  if p.isAbsolute then ⟨'/' :: Text.joined ['/'] parts⟩
  else if p.startsHere then ⟨Text.joined ['/'] (['.'] :: parts)⟩
  else ⟨Text.joined ['/'] parts⟩

/-- Parts without those at the end that say nothing. -/
def dropIdleEnd (parts : List (List Char)) : List (List Char) :=
  (parts.reverse.dropWhile isIdle).reverse

/-- The path without its last component. The root and the empty path have no component above. -/
def parent? (p : Path) : Option Path :=
  match dropIdleEnd p.body with
  | [] => if p.isAbsolute then none else if p.startsHere then some ⟨[]⟩ else none
  | part :: parts => some (p.withBody (dropIdleEnd (part :: parts).dropLast))

/-- The name that a path ends with, if its last component is a name. -/
def fileName? (p : Path) : Option Name :=
  (dropIdleEnd p.body).getLast?.filter (· != ['.', '.'])

/-- The path with the extension of its last name left out. -/
def withoutExtension (p : Path) : Path :=
  match p.fileName? with
  | none => p
  | some n => p.withBody ((dropIdleEnd p.body).dropLast ++ [n.stem])

/-- The path and the paths above it, longest first. -/
def ancestors (p : Path) : List Path := go p.chars.length p
where
  /-- Goes up at most so many times. -/
  go : Nat → Path → List Path
    | 0, p => [p]
    | n + 1, p =>
      match p.parent? with
      | none => [p]
      | some above => p :: go n above

/-! ## Joining -/

/-- The path `q` seen from `p`: an absolute path stays, another is written behind `p` with a slash
between, unless `p` is empty or ends with one. -/
def join (p q : Path) : Path :=
  if q.isAbsolute then q
  else if p.chars.isEmpty || p.chars.getLast? = some '/' then ⟨p.chars ++ q.chars⟩
  else ⟨p.chars ++ '/' :: q.chars⟩

def child (p : Path) (n : Name) : Path := p.join ⟨n⟩

/-- The path that goes on from `p` from name to name. -/
def descend (p : Path) (names : List Name) : Path := names.foldl child p

/-- The relative path that goes from name to name. -/
def ofNames (names : List Name) : Path := ⟨Text.joined ['/'] names⟩

/-- Whether the components of `p` begin with those of `q`. -/
def startsWith (p q : Path) : Bool := q.components.isPrefixOf p.components

/-- An absolute path is seen the same from everywhere. -/
theorem join_of_isAbsolute {q : Path} (h : q.isAbsolute = true) (p : Path) : p.join q = q := by
  simp [join, h]

end Path
end StatusBadges
