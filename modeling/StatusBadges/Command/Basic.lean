import StatusBadges.Path.Basic
/-!
# Commands

A command is a program with its arguments and the directory in which it is to run. No shell reads
it. What a finished command leaves is its exit code and its two output streams.
-/

namespace StatusBadges

structure Command where
  /-- A program name, or a path to a program. -/
  program : String
  args : List String
  /-- The working directory, if it is not that of the caller. -/
  directory : Option Path
  deriving DecidableEq, Repr

namespace Command

def new (program : String) : Command := ⟨program, [], none⟩

def arg (c : Command) (a : String) : Command := { c with args := c.args ++ [a] }

def arguments (c : Command) (more : List String) : Command := { c with args := c.args ++ more }

/-- The command with a path as one more argument. -/
def pathArg (c : Command) (p : Path) : Command := c.arg p.toString

def inDirectory (c : Command) (p : Path) : Command := { c with directory := some p }

/-- The program and the arguments with a space before each argument. -/
def line (c : Command) : String := c.args.foldl (fun text a => text ++ " " ++ a) c.program

end Command

/-- What a finished command leaves. -/
structure Output where
  /-- The exit code, or `-1` for a command that was ended by a signal. -/
  code : Int
  stdout : String
  stderr : String
  deriving DecidableEq, Repr

namespace Output

def success (o : Output) : Bool := o.code = 0

/-- The output text and then the error text, from a new line on. -/
def combined (o : Output) : List Char :=
  let out := o.stdout.toList
  let err := o.stderr.toList
  if out.isEmpty || out.getLast? = some '\n' || err.isEmpty then out ++ err
  else out ++ '\n' :: err

end Output
end StatusBadges
