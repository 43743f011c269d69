import StatusBadges.Command.Session
import StatusBadges.Json.Document
import StatusBadges.Sources
/-!
# Build status

A project builds when the compiler accepts its entry file.
-/

namespace StatusBadges

/-- Whether a project builds. -/
inductive BuildStatus where
  /-- The compiler accepts the entry file. -/
  | passing
  /-- The compiler refuses the entry file or cannot be run. -/
  | failing
  /-- There is no entry file. -/
  | noSource
  deriving DecidableEq, Repr

namespace BuildStatus

def text : BuildStatus → String
  | .passing => "passing"
  | .failing => "failing"
  | .noSource => "no source"

def color : BuildStatus → String
  | .passing => "brightgreen"
  | .failing => "red"
  | .noSource => "lightgrey"

def toJson (s : BuildStatus) : Json := .ofString s.text

end BuildStatus

namespace Build

/-- Entry files that win over all others, as texts. -/
def entryCandidates : List String := ["main.nim", "src/main.nim"]

/-- The entry file of a project, seen from its root: a candidate, else the first source whose path
does not mention tests. -/
def findEntry? (d : Disk) (root : Path) : Option Path :=
  match (entryCandidates.map Path.ofString).find? fun p => d.isFile (root.join p) with
  | some candidate => some candidate
  | none =>
    (Sources.nimFiles d root).find? fun p => !Text.occurs ['t', 'e', 's', 't'] p.chars

/-- The command that checks an entry file. -/
def checkCommand (root entry : Path) : Command :=
  ((Command.new "nim").arg "check" |>.pathArg entry).inDirectory root

def check (tools : Toolbox) (root : Path) : Step BuildStatus := do
  match ← Session.ask fun d => findEntry? d root with
  | none => return .noSource
  | some entry =>
    match ← Session.issue tools (checkCommand root entry) with
    | .ok output => return if output.success then .passing else .failing
    | .error _ => return .failing

end Build
end StatusBadges
