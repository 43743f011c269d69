import StatusBadges.Command.Session
import StatusBadges.Text.Utf8
/-!
# Finding and starting programs

A program named without a slash is searched in the directories of a search path; one with a slash
is a path, seen from the directory in which the command runs. What executing a program file does is
given by a `Machine`.
-/

namespace StatusBadges

/-- How a process ended. -/
inductive Ending where
  | exited (code : Int)
  | killed

/-- What a process leaves: how it ended and the octets on its two streams. -/
structure Trace where
  ending : Ending
  stdout : List UInt8
  stderr : List UInt8

/-- A machine that executes program files. -/
structure Machine where
  searchPath : List Path
  home : Option Path
  /-- What executing the program file at a path with arguments leaves, and the trees that it makes
  of the files one after another. -/
  execute : Disk → Path → List String → Except Cause (Trace × List Tree)

namespace Trace

/-- The octets of a stream are read leniently, and a signal leaves the exit code `-1`. -/
def output (t : Trace) : Output where
  code := match t.ending with
    | .exited code => code
    | .killed => -1
  stdout := Text.Utf8.lenient t.stdout
  stderr := Text.Utf8.lenient t.stderr

end Trace

namespace Machine

def executeAt (m : Machine) (d : Disk) (p : Path) (args : List String) :
    Except Cause (Trace × List Tree) := do
  let l ← d.resolve p
  match d.tree.found? l with
  | none => .error .notFound
  | some n => if n.isProgram then m.execute d p args else .error .permissionDenied

/-- Executes the first program file among paths. What is missing is passed over. When nothing is
found the last refusal is kept, or that of a file that may not be executed. -/
def executeFirst (m : Machine) (d : Disk) (args : List String) :
    (refusal : Cause) → List Path → Except Cause (Trace × List Tree)
  | refusal, [] => .error refusal
  | refusal, p :: rest =>
    match m.executeAt d p args with
    | .ok result => .ok result
    | .error cause =>
      if cause = .permissionDenied then m.executeFirst d args .permissionDenied rest
      else if cause = .notFound ∨ cause = .notADirectory then
        m.executeFirst d args (if refusal = .permissionDenied then refusal else cause) rest
      else .error cause

def holdsNul (s : String) : Bool := s.toList.contains '\x00'

def enter (d : Disk) (c : Command) : Except Cause Disk :=
  match c.directory with
  | none => .ok d
  | some p => do
    let l ← d.resolve p
    match d.tree.found? l with
    | none => .error .notFound
    | some .directory => .ok { d with here := l }
    | some _ => .error .notADirectory

/-- Runs a command to its end. The working directory is entered before the program is searched. -/
def launch (m : Machine) (d : Disk) (c : Command) : Except Cause (Trace × List Tree) := do
  if holdsNul c.program || c.args.any holdsNul ||
      (c.directory.map fun p => p.chars.contains '\x00').getD false then
    .error .nulInCommand
  let d ← enter d c
  let program := Path.ofString c.program
  if c.program = "" then .error .notFound
  else if program.chars.contains '/' then m.executeAt d program c.args
  else m.executeFirst d c.args .notFound (m.searchPath.map fun p => p.join program)

/-- A directory of the search path with the home directory in place of a tilde that it begins
with. -/
def expandHome (m : Machine) (p : Path) : Path :=
  match p.components, m.home with
  | .name ['~'] :: rest, some home => home.descend (rest.map Path.Component.text)
  | _, _ => p

/-- The path of a program: a name with several components is seen from the working directory, any
other is searched, also in the home directory of the user. Only a regular file that may be executed
is a program. -/
def locate (m : Machine) (working : Path) (d : Disk) (program : String) : Option Path :=
  let p := Path.ofString program
  let candidates :=
    if 1 < p.components.length then [working.join p]
    else m.searchPath.map fun q => (m.expandHome q).join p
  candidates.find? fun q => ((d.node? q).map Node.isProgram).getD false

/-- Runs a command. The files stay as they are when it cannot be started. -/
def run (m : Machine) (d : Disk) (c : Command) : Except Cause Output × List Tree :=
  match m.launch d c with
  | .ok (trace, trees) => (.ok trace.output, trees)
  | .error cause => (.error cause, [])

/-- The directories that a search path lists between colons. -/
def searchPathOf (text : String) : List Path := (Text.split ':' text.toList).map Path.mk

/-- The programs of the machine, located from a working directory, and a clock. -/
def toolbox (m : Machine) (working : Path) (localTime : String) : Toolbox where
  locate := m.locate working
  run := fun _ d c => m.run d c
  localTime := localTime

end Machine
end StatusBadges
