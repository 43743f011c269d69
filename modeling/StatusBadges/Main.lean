import StatusBadges.Clock
import StatusBadges.Command.Launch
import StatusBadges.CommandLine.Run
import StatusBadges.Storage.Changes
/-!
# The program

The outer layer of the command line: it loads the files that a request is about, runs the request,
and stores what changed. It finds programs but starts none, so that a run falls back as it does
where the tools cannot be started.
-/

namespace StatusBadges.Main

/-! ## Loading -/

/-- The location of an absolute path without links and dots. -/
def locationOf (absolute : String) : Location := (Path.ofString absolute).pieces.filter (· != [])

def pathOf (l : Location) : String := String.ofList ('/' :: Text.joined ['/'] l)

/-- A tree with the directory at a location and those above it. -/
def withDirectories (t : Tree) (l : Location) : Tree :=
  ((⟨t, []⟩ : Disk).makeDirectories (.ofString (pathOf l))).2.tree

/-- Loads an entry of the directory at a location, with all that is below it. -/
partial def loadEntry (t : Tree) (directory : Location) (e : IO.FS.DirEntry) : IO Tree := do
  let l := directory ++ [e.fileName.toList]
  try
    match (← e.path.symlinkMetadata).type with
    | .dir => (← e.path.readDir).foldlM (fun t below => loadEntry t l below) (t.put l .directory)
    | .file =>
      let octets ← IO.FS.readBinFile e.path
      return t.put l (.file (.ofBytes octets.toList) Disk.newFileMode)
    | .symlink =>
      let target ← IO.FS.realPath e.path
      return t.put l (.link (.ofString target.toString))
    | .other => return t
  catch _ => return t

def loadDirectory (t : Tree) (absolute : String) : IO Tree := do
  try
    let directory ← IO.FS.realPath absolute
    let l := locationOf directory.toString
    (← directory.readDir).foldlM (fun t e => loadEntry t l e) (withDirectories t l)
  catch _ => return t

/-- Loads a program of this name from a directory, if there is one. -/
def loadProgram (t : Tree) (directory : Path) (name : String) : IO Tree := do
  let e : IO.FS.DirEntry := ⟨directory.toString, name⟩
  try
    let l := locationOf (← IO.FS.realPath directory.toString).toString
    match (← e.path.metadata).type with
    | .file => return (withDirectories t l).put (l ++ [name.toList]) (.file (.raw []) 0o755)
    | _ => return t
  catch _ => return t

def placesOf : CommandLine.Request → List Path
  | .generate c _ | .clean c =>
    [c.root, c.testsPath, c.htmlPath, c.nimCachePath] ++
      [c.readmePath, c.dataPath].filterMap Path.parent?
  | .doctor _ => []

/-! ## Storing -/

/-- Stores what is now at a location. The program makes no links. -/
def store (l : Location) : Option Node → IO Unit
  | none => do
    try IO.FS.removeFile (pathOf l) catch _ => try IO.FS.removeDirAll (pathOf l) catch _ => pure ()
  | some .directory => IO.FS.createDirAll (pathOf l)
  | some (.file (.text t) _) => IO.FS.writeFile (pathOf l) t
  | some (.file (.raw octets) _) => IO.FS.writeBinFile (pathOf l) ⟨octets.toArray⟩
  | some (.link _) => pure ()

/-! ## Running -/

/-- A machine that starts no programs. -/
def idleMachine (searchPath : String) (home : Option String) : Machine where
  searchPath := Machine.searchPathOf searchPath
  home := home.map Path.ofString
  execute := fun _ _ _ => .error (.other "programs cannot be started here")

/-- The time, told by a file that is made for it. -/
def now : IO String := do
  let (_, file) ← IO.FS.createTempFile
  let seconds := (← file.metadata).modified.sec
  IO.FS.removeFile file
  return Clock.text seconds.toNat

/-- Performs a request in the working directory and gives the exit code. -/
def perform (request : CommandLine.Request) : IO UInt32 := do
  let working := Path.ofString (← IO.currentDir).toString
  let machine := idleMachine ((← IO.getEnv "PATH").getD "") (← IO.getEnv "HOME")
  let mut tree ← loadDirectory .empty working.toString
  for p in placesOf request do
    tree ← loadDirectory tree (working.join p).toString
  for directory in machine.searchPath.map machine.expandHome do
    for tool in Doctor.tools do
      tree ← loadProgram tree directory tool.name
  let session : Session := ⟨⟨tree, locationOf working.toString⟩, []⟩
  let tools := machine.toolbox working (← now)
  let (outcome, after) := (CommandLine.perform tools request).run session
  for (l, node) in tree.changes after.disk.tree do
    store l node
  IO.print outcome.stdout
  outcome.complaint.forM IO.eprintln
  return UInt32.ofNat outcome.code

end StatusBadges.Main

open StatusBadges in
/-- Reads the words of the command line and performs the request that they make. -/
def main (words : List String) : IO UInt32 := do
  let e : CommandLine.Environment :=
    ⟨← IO.getEnv "HOME", ← IO.getEnv "BADGES_ROOT", ← IO.getEnv "BADGES_NIM_CACHE"⟩
  match CommandLine.Request.read e words with
  | .ok request => Main.perform request
  | .error stop =>
    IO.print stop.outcome.stdout
    return UInt32.ofNat stop.outcome.code
