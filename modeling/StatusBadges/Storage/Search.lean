import StatusBadges.Path.Order
import StatusBadges.Storage.Disk
/-!
# Searching a directory

`Disk.filesIn` lists the files of a directory whose names are wanted. The directory is found part
by part from a starting point, and each file is given as the path that the parts make: the working
directory as a starting point is left out of it, a part that is a dot stays unless it comes first,
and doubled slashes go.
-/

namespace StatusBadges.Disk

/-- The path behind one more part, if there is something. From the plain working directory the part
alone is the path. -/
def searchStep (d : Disk) (p : Path) (part : List Char) : Option Path :=
  let next := if p.chars = ['.'] then ⟨part⟩ else p.join ⟨part⟩
  if part = ['.'] || part = ['.', '.'] then (if d.isDirectory p then some next else none)
  else if d.exists? next then some next
  else none

/-- The path by which a search for a directory arrives there. -/
def searchPath? (d : Disk) (directory : Path) : Option Path :=
  let asked := directory.chars ++ ['/']
  let (start, rest) : Path × List Char :=
    if asked.head? = some '/' then (⟨['/']⟩, asked.tail) else (⟨['.']⟩, asked)
  (Text.split '/' rest).dropLast.foldlM d.searchStep start

/-- The regular files in a directory whose names are wanted, links followed, in order. -/
def filesIn (d : Disk) (directory : Path) (wanted : Name → Bool) : List Path :=
  match d.searchPath? directory with
  | none => []
  | some p =>
    match d.resolve p with
    | .error _ => []
    | .ok l =>
      if d.tree.node? l = some .directory then
        let paths := ((d.tree.names l).filter wanted).map fun n =>
          if p.chars = ['.'] then ⟨n⟩ else p.child n
        Path.sort (paths.filter d.isFile)
      else []

end StatusBadges.Disk
