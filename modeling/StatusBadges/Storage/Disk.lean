import StatusBadges.Storage.Cause
import StatusBadges.Storage.Tree
/-!
# Looking up paths

A disk is a file tree seen from a working directory. `Disk.resolve` follows a path from name to
name and link to link to a location. A lookup needs every part of the path but the last to lead to
a directory; the last may be missing, which is how a file to be created is found.

A process stays in its working directory when that is removed. Such a directory has lost its name:
in the location of the working directory the empty name stands for it, which no tree holds. It is
empty for good, and leads nowhere but up.

Files belong to the one who runs the program, whose permission bits decide. That a disk can fill up
is left out: a write is assumed never to stop half-way for lack of space, so that it is either
refused, and changes nothing, or done as a whole.
-/

namespace StatusBadges

/-- A file tree and the working directory in it. -/
structure Disk where
  tree : Tree
  /-- Where relative paths start, with an empty name for each directory that was removed. -/
  here : Location

/-- How many symbolic links a lookup follows. -/
def maxLinks : Nat := 40

def maxNameOctets : Nat := 255

def maxPathOctets : Nat := 4095

/-- The octets of a text in UTF-8. -/
def octetCount (s : List Char) : Nat := (s.map Char.utf8Size).foldr (· + ·) 0

namespace Path

/-- Whether the text of a path ends with a slash, which asks for a directory. -/
def endsWithSlash (p : Path) : Bool := p.chars.getLast? = some '/'

/-- The parts of the path that are not empty, with the dots that stay and go up. -/
def parts (p : Path) : List Name := p.pieces.filter (· != [])

/-- The names that a lookup of the path goes through. A slash at the end counts as a dot behind
it. -/
def steps (p : Path) : List Name := p.parts ++ if p.endsWithSlash then [['.']] else []

/-- Whether the path is short enough to be looked up. -/
def fits (p : Path) : Bool := octetCount p.chars ≤ maxPathOctets

end Path

/-! ## Removed directories -/

/-- Whether a location is that of a directory that was removed. -/
def Location.isRemoved (l : Location) : Bool := l.getLast? = some []

namespace Tree

/-- The location of a directory as it is in this tree. A directory that the tree does not hold, and
those below it, have lost their names. -/
def anchor (t : Tree) (l : Location) : Location :=
  if _h : t.node? l = some .directory then l else t.anchor l.dropLast ++ [[]]
termination_by l.length
decreasing_by
  have hl : l ≠ [] := by
    rintro rfl
    exact _h t.node?_nil
  have := List.length_pos_iff.2 hl
  rw [List.length_dropLast]
  omega

/-- A directory that the tree holds stays where it is. -/
theorem anchor_eq_self {t : Tree} {l : Location} (h : t.node? l = some .directory) :
    t.anchor l = l := by
  rw [anchor, dif_pos h]

/-- What a walk that ends at a location finds: for those who are in it, a removed directory is
still there. -/
def found? (t : Tree) (l : Location) : Option Node :=
  if Location.isRemoved l then some .directory else t.node? l

end Tree

/-! ## Walking -/

/-- How far a walk along names comes without following a link. -/
inductive Walk where
  /-- To this location. Behind a directory its last name can be missing. -/
  | arrived (l : Location)
  /-- To a link in this directory, with names left. -/
  | atLink (directory : Location) (target : Path) (left : List Name)
  | failed (cause : Cause)

namespace Tree

def walk (t : Tree) : Location → List Name → Walk
  | l, [] => .arrived l
  | l, s :: rest =>
    if s = ['.'] then walk t l rest
    else if s = ['.', '.'] then walk t l.dropLast rest
    else if Location.isRemoved l then .failed .notFound
    else if maxNameOctets < octetCount s then .failed .nameTooLong
    else
      match t.node? (l ++ [s]) with
      | some .directory => walk t (l ++ [s]) rest
      | some (.file _ _) => if rest = [] then .arrived (l ++ [s]) else .failed .notADirectory
      | some (.link target) => .atLink l target rest
      | none =>
        if rest = [] ∧ t.node? l = some .directory then .arrived (l ++ [s]) else .failed .notFound

/-- Where a path starts, seen from a directory. -/
def startOf (p : Path) (directory : Location) : Location :=
  if p.isAbsolute then [] else directory

/-- Walks from a directory along names and follows at most so many links. The number that comes with
the location is that of the links that can still be followed. -/
def followWithin (t : Tree) : (budget : Nat) → Location → List Name → Except Cause (Location × Nat)
  | 0, l, names =>
    match t.walk l names with
    | .arrived l => .ok (l, 0)
    | .failed cause => .error cause
    | .atLink _ _ _ => .error .tooManyLinks
  | n + 1, l, names =>
    match t.walk l names with
    | .arrived l => .ok (l, n + 1)
    | .failed cause => .error cause
    | .atLink directory target left =>
      t.followWithin n (startOf target directory) (target.steps ++ left)

/-- Walks from a directory along names and follows links. -/
def follow (t : Tree) (l : Location) (names : List Name) : Except Cause Location :=
  (t.followWithin maxLinks l names).map (·.1)

end Tree

namespace Disk

/-- The disk with another tree, in which the working directory may be removed. -/
def withTree (d : Disk) (t : Tree) : Disk := ⟨t, t.anchor d.here⟩

/-- The disk after trees that follow one another. A directory that is missing in one of them was
removed, even where a later one holds a directory of that name. -/
def through (d : Disk) (trees : List Tree) : Disk := trees.foldl withTree d

/-- What is wrong with a path that names nothing, or holds a character that no name holds. -/
def checkNaming (p : Path) : Except Cause Unit :=
  if p.chars.contains '\x00' then .error .nulInPath
  else if p.chars = [] then .error .notFound
  else .ok ()

/-- What can be wrong with the text of a path. -/
def checkText (p : Path) : Except Cause Unit := do
  checkNaming p
  if p.fits then .ok () else .error .nameTooLong

/-- Where the lookup of a path starts. -/
def start (d : Disk) (p : Path) : Location := Tree.startOf p d.here

/-- The location that a path leads to. Its last name can be missing. -/
def resolve (d : Disk) (p : Path) : Except Cause Location := do
  checkText p
  d.tree.follow (d.start p) p.steps

/-- Whether a name is one of the two that every directory has for itself and the one above. -/
def isDots (name : Name) : Bool := name = ['.'] || name = ['.', '.']

/-- The directory that holds the last name of a path, and that name, which is not followed. A path
of slashes alone has no last name. A directory that was removed holds no names. -/
def slot (d : Disk) (p : Path) : Except Cause (Location × Option Name) := do
  checkText p
  let directory ← d.tree.follow (d.start p) (p.parts.dropLast ++ [['.']])
  match p.parts.getLast? with
  | none => .ok (directory, none)
  | some name =>
    if isDots name then .ok (directory, some name)
    else if d.tree.node? directory ≠ some .directory then .error .notFound
    else if maxNameOctets < octetCount name then .error .nameTooLong
    else .ok (directory, some name)

/-! ## Questions -/

def node? (d : Disk) (p : Path) : Option Node :=
  match d.resolve p with
  | .ok l => d.tree.found? l
  | .error _ => none

/-- What is at a path when a link at its end is not followed. -/
def linkNode? (d : Disk) (p : Path) : Option Node :=
  if p.endsWithSlash then d.node? p
  else
    match d.slot p with
    | .ok (directory, some name) =>
      if isDots name then d.node? p else d.tree.node? (directory ++ [name])
    | .ok (_, none) => d.node? p
    | .error _ => none

def isFile (d : Disk) (p : Path) : Bool :=
  match d.node? p with
  | some n => n.isFile
  | none => false

def isDirectory (d : Disk) (p : Path) : Bool := d.node? p = some .directory

def exists? (d : Disk) (p : Path) : Bool := (d.node? p).isSome

/-- The text of the file at a path. -/
def readText (d : Disk) (p : Path) : Except Cause String := do
  match d.tree.found? (← d.resolve p) with
  | some (.file content mode) =>
    if Node.mayRead mode then
      match content with
      | .text t => .ok t
      | .raw _ => .error .illFormedText
    else .error .permissionDenied
  | some _ => .error .isADirectory
  | none => .error .notFound

/-- The name of the directory or file that a path leads to. It is found name by name, so that a path
can have any length, and from the root on, so that a relative path needs a working directory that
was not removed. -/
def canonicalName? (d : Disk) (p : Path) : Option Name :=
  if !p.isAbsolute && Location.isRemoved d.here then none
  else
    match checkNaming p, d.tree.follow (d.start p) p.steps with
    | .ok _, .ok l => if (d.tree.node? l).isSome then l.getLast? else none
    | _, _ => none

/-- The regular files found by going down from a path, as the names that lead to them. Links are
not followed, except for a link to a directory at the path itself. A directory is entered by its
path, which must not be too long. A path to a regular file finds that file, with no name. -/
def filesBelow (d : Disk) (p : Path) : List (List Name × Node) :=
  match d.linkNode? p with
  | none => []
  | some (.file content mode) => [([], .file content mode)]
  | some _ =>
    match d.resolve p with
    | .ok l =>
      if d.tree.node? l = some .directory then
        (d.tree.filesBelow l).filter fun e => (p.descend e.1.dropLast).fits
      else []
    | .error _ => []

end Disk
end StatusBadges
