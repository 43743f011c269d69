import StatusBadges.CommandLine.Words
import StatusBadges.Config
/-!
# Requests

A request is what the words of a command line and the environment ask for. A flag wins over the
environment, and a flag behind the subcommand over the same flag before it. Without a subcommand
the badges are made with the standard configuration, and the compiler cache that the environment
names is not looked at.
-/

namespace StatusBadges.CommandLine

/-- The variables of the environment that the program looks at. -/
structure Environment where
  home : Option String
  root : Option String
  nimCache : Option String

inductive Format where
  | text
  | json
  deriving DecidableEq, Repr

/-- The format of this name. Every name but one asks for text. -/
def Format.ofName (name : String) : Format := if name = "json" then .json else .text

/-- What the program is to do. -/
inductive Request where
  | generate (c : Config) (format : Format)
  | doctor (format : Format)
  | clean (c : Config)
  deriving DecidableEq, Repr

namespace Environment

def value? (e : Environment) : Flag → Option String
  | .root => e.root
  | .nimCache => e.nimCache
  | _ => none

/-- Whether the environment has an empty path for a flag that is understood at a level and not
given there. -/
def misleads (e : Environment) (level : Level) (given : Given) : Bool :=
  (Flag.ofLevel level).any fun f =>
    f.operand = .path && (given.lookup f).isNone && e.value? f = some ""

end Environment

/-- The root of the project when no one names it. -/
def defaultRoot : String := "."

def rootOf (e : Environment) (before behind : Given) : Path :=
  .ofString ((((behind.lookup .root).or (before.lookup .root)).or e.root).getD defaultRoot)

def optionsOf (e : Environment) (given : Given) : Options where
  readme := ((given.lookup .readme).map .ofString).getD Config.defaultReadme
  dataFile := ((given.lookup .dataFile).map .ofString).getD Config.defaultDataFile
  testsDir := ((given.lookup .testsDir).map .ofString).getD Config.defaultTestsDir
  nimCache := ((given.lookup .nimCache).or e.nimCache).map .ofString
  htmlDir := ((given.lookup .htmlDir).map .ofString).getD Config.defaultHtmlDir
  projectName := given.lookup .projectName
  noCoverageReport := (given.lookup .noCoverageReport).isSome

/-- The configuration that the flags before and behind a subcommand give. -/
def configOf (e : Environment) (before behind : Given) : Config :=
  .ofOptions e.home (rootOf e before behind) (optionsOf e behind)

def formatOf (given : Given) : Format := .ofName ((given.lookup .format).getD "text")

namespace Request

/-- The request that the words make in an environment. -/
def ofWords (e : Environment) (w : Words) : Request :=
  match w.chosen with
  | none => .generate (.standard e.home (rootOf e w.before [])) .text
  | some (.generate, behind) => .generate (configOf e w.before behind) (formatOf behind)
  | some (.doctor, behind) => .doctor (formatOf behind)
  | some (.clean, behind) => .clean (configOf e w.before behind)

/-- Reads the request of a command line in an environment. -/
def read (e : Environment) (words : List String) : Except Stop Request := do
  let w ← Words.read words
  let misled := e.misleads none w.before ||
    match w.chosen with
    | none => false
    | some (s, behind) => e.misleads (some s) behind
  if misled then .error .misuse else .ok (ofWords e w)

end Request
end StatusBadges.CommandLine
