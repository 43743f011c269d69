import StatusBadges.Command.Basic
import StatusBadges.Failure
import StatusBadges.Storage.Disk
/-!
# Sessions

A run changes the files and issues commands, and commands change the files too. A session holds
both: the disk as it stands and the commands issued so far. What programs there are and what they
do is given by a `Toolbox`, about which nothing is assumed: the effect of a command may depend on
the files and on every command before it.
-/

namespace StatusBadges

/-- The disk as it stands and the commands issued so far, oldest first. -/
structure Session where
  disk : Disk
  issued : List Command

/-- The programs of a machine and its clock. -/
structure Toolbox where
  /-- The path of a program, if there is such a program. -/
  locate : Disk → String → Option Path
  /-- What a command leaves after those issued before it, and the trees that it makes of the files
  one after another. A command that cannot be started has a cause for that. -/
  run : List Command → Disk → Command → Except Cause Output × List Tree
  /-- The local time, to the second with its offset. -/
  localTime : String

/-- A step of a run, which gives a value and changes the session. -/
abbrev Step := StateM Session

namespace Session

/-- A question about the files. -/
def ask {α : Type} (question : Disk → α) : Step α := do return question (← get).disk

/-- A change of the files with a value. -/
def change {α : Type} (f : Disk → α × Disk) : Step α :=
  modifyGet fun s => ((f s.disk).1, { s with disk := (f s.disk).2 })

/-- The result of issuing a command. -/
def issue (tools : Toolbox) (c : Command) : Step (Except Failure Output) :=
  modifyGet fun s =>
    let (result, trees) := tools.run s.issued s.disk c
    (result.mapError (Failure.launch c.program), ⟨s.disk.through trees, s.issued ++ [c]⟩)

def available (tools : Toolbox) (program : String) : Step Bool :=
  ask fun d => (tools.locate d program).isSome

end Session
end StatusBadges
