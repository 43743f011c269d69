import StatusBadges.Storage.Disk
/-!
# Changing files

Writing, making directories and removing. An operation on one location either fails and changes
nothing or succeeds. Making a chain of directories and removing a directory with all it holds go
step by step, and what was done before a failure stays.
-/

namespace StatusBadges.Disk

/-- The permission bits of a file that is created. -/
def newFileMode : Nat := 0o644

/-! ## Writing -/

/-- Why a path that leads to no file cannot be written: a slash at its end, or at the end of the
target of a link that it ends with, asks for a directory before the name in front of it is looked
up. Else the lookup tells why. -/
def slashRefusal (t : Tree) :
    (tries budget : Nat) → (here : Location) → Path → (otherwise : Cause) → Cause
  | 0, _, _, _, cause => cause
  | tries + 1, budget, here, p, cause =>
    match t.followWithin budget (Tree.startOf p here) (p.parts.dropLast ++ [['.']]),
        p.parts.getLast? with
    | .ok (directory, left), some name =>
      if isDots name then cause
      else if p.endsWithSlash then .isADirectory
      else
        match t.node? (directory ++ [name]), left with
        | some (.link target), left + 1 => slashRefusal t tries left directory target cause
        | _, _ => cause
    | _, _ => cause

/-- Why a path that the lookup refuses cannot be written. -/
def writeRefusal (d : Disk) (p : Path) (cause : Cause) : Cause :=
  match checkText p with
  | .error cause => cause
  | .ok _ => slashRefusal d.tree (maxLinks + 1) maxLinks d.here p cause

/-- Writes a text to the file at a path, which is created where a directory holds its name. Links
are followed. A path that ends with a slash asks for a directory. -/
def writeText (d : Disk) (p : Path) (text : String) : Except Cause Disk :=
  match d.resolve p with
  | .error cause => .error (d.writeRefusal p cause)
  | .ok l =>
    match d.tree.found? l with
    | some (.file _ mode) =>
      if Node.mayWrite mode then .ok (d.withTree (d.tree.put l (.file (.text text) mode)))
      else .error .permissionDenied
    | some _ => .error .isADirectory
    | none =>
      if d.tree.accepts l then .ok (d.withTree (d.tree.put l (.file (.text text) newFileMode)))
      else .error .isADirectory

/-! ## Directories -/

def makeDirectory (d : Disk) (p : Path) : Except Cause Disk :=
  match d.slot p with
  | .error cause => .error cause
  | .ok (_, none) => .error .alreadyExists
  | .ok (directory, some name) =>
    if isDots name || (d.tree.node? (directory ++ [name])).isSome then .error .alreadyExists
    else .ok (d.withTree (d.tree.put (directory ++ [name]) .directory))

/-- Makes a directory, or finds that there is one. -/
def ensureDirectory (d : Disk) (p : Path) : Except Cause Unit × Disk :=
  match d.makeDirectory p with
  | .ok d => (.ok (), d)
  | .error cause => (if d.isDirectory p then .ok () else .error cause, d)

/-- Makes a directory, given with the paths above it, after those above it that are missing. -/
def ensureChain (d : Disk) : List Path → Except Cause Unit × Disk
  | [] => (.ok (), d)
  | p :: above =>
    if p.chars = [] then (.ok (), d)
    else
      match d.makeDirectory p with
      | .ok d => (.ok (), d)
      | .error cause =>
        if cause = .notFound then
          match d.ensureChain above with
          | (.ok _, d) => d.ensureDirectory p
          | (.error cause, d) => (.error cause, d)
        else (if d.isDirectory p then .ok () else .error cause, d)

def makeDirectories (d : Disk) (p : Path) : Except Cause Unit × Disk := d.ensureChain p.ancestors

/-! ## Removing -/

/-- Removes the file or link at a path. A link is not followed. -/
def removeFile (d : Disk) (p : Path) : Except Cause Disk :=
  match d.slot p with
  | .error cause => .error cause
  | .ok (_, none) => .error .isADirectory
  | .ok (directory, some name) =>
    if isDots name then .error .isADirectory
    else
      match d.tree.node? (directory ++ [name]) with
      | none => .error .notFound
      | some .directory => .error .isADirectory
      | some _ =>
        if p.endsWithSlash then .error .notADirectory
        else .ok (d.withTree (d.tree.prune (directory ++ [name])))

/-- Removes the empty directory at a path, which must end with its name. -/
def removeDirectory (d : Disk) (p : Path) : Except Cause Disk :=
  match d.slot p with
  | .error cause => .error cause
  | .ok (_, none) => .error .busy
  | .ok (directory, some name) =>
    if name = ['.'] then .error .invalidArgument
    else if name = ['.', '.'] then .error .notEmpty
    else
      match d.tree.node? (directory ++ [name]) with
      | none => .error .notFound
      | some .directory =>
        if (d.tree.names (directory ++ [name])).isEmpty then
          .ok (d.withTree (d.tree.prune (directory ++ [name])))
        else .error .notEmpty
      | some _ => .error .notADirectory

/-- Removes a directory with everything below it, or the link at a path. What is below goes first,
and stays gone when the directory itself cannot be removed by the given path. A path that leads
nowhere by then is no failure. -/
def removeAll (d : Disk) (p : Path) : Except Cause Unit × Disk :=
  match d.linkNode? p with
  | none => (.error .notFound, d)
  | some (.file _ _) => (.error .notADirectory, d)
  | some (.link _) =>
    match d.removeFile p with
    | .ok d => (.ok (), d)
    | .error cause => (.error cause, d)
  | some .directory =>
    match d.resolve p with
    | .error cause => (.error cause, d)
    | .ok l =>
      let d := d.withTree (d.tree.clear l)
      match d.removeDirectory p with
      | .ok d => (.ok (), d)
      | .error cause => (if cause = .notFound then .ok () else .error cause, d)

/-- Removes the regular files below the directory at a path whose name and node are wanted, and
counts them. Links are not followed, except at the path itself. A file is removed by its path, which
must not be too long. -/
def removeFilesBelow (d : Disk) (p : Path) (wanted : Name → Node → Bool) : Nat × Disk :=
  match d.resolve p with
  | .error _ => (0, d)
  | .ok l =>
    if d.tree.node? l = some .directory then
      let hit := fun (k : Location) (n : Node) =>
        l.isPrefixOf k && k != l && n.isFile && wanted (k.getLast?.getD []) n &&
          (p.descend (k.drop l.length)).fits
      ((d.tree.entries.filter fun e => hit e.1 e.2).length, d.withTree (d.tree.removeLeaves hit))
    else (0, d)

end StatusBadges.Disk
