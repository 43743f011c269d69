/-!
# Subcommands and flags

The words that the command line knows. A flag is understood at some levels: before the subcommand,
or behind one of the subcommands.
-/

namespace StatusBadges.CommandLine

/-- What the program can be asked to do. -/
inductive Subcommand where
  | generate
  | doctor
  | clean
  deriving DecidableEq, Repr

namespace Subcommand

def all : List Subcommand := [.generate, .doctor, .clean]

def name : Subcommand → String
  | .generate => "generate"
  | .doctor => "doctor"
  | .clean => "clean"

/-- The subcommand that a word names. Names are not abbreviated. -/
def ofName? (word : String) : Option Subcommand := all.find? fun s => s.name = word

end Subcommand

/-- Where a flag stands: before the subcommand, or behind it. -/
abbrev Level := Option Subcommand

/-- What follows a flag. -/
inductive Operand where
  | nothing
  /-- A path, which is not empty. -/
  | path
  | text
  deriving DecidableEq, Repr

inductive Flag where
  | root
  | verbose
  | help
  | version
  | readme
  | dataFile
  | testsDir
  | nimCache
  | htmlDir
  | projectName
  | noCoverageReport
  | format
  deriving DecidableEq, Repr

namespace Flag

/-- The long name of a flag, behind two dashes. -/
def long : Flag → String
  | .root => "root"
  | .verbose => "verbose"
  | .help => "help"
  | .version => "version"
  | .readme => "readme"
  | .dataFile => "data-file"
  | .testsDir => "tests-dir"
  | .nimCache => "nim-cache"
  | .htmlDir => "html-dir"
  | .projectName => "project-name"
  | .noCoverageReport => "no-coverage-report"
  | .format => "format"

/-- The short name of a flag, behind one dash, if it has one. -/
def short? : Flag → Option Char
  | .verbose => some 'v'
  | .help => some 'h'
  | .version => some 'V'
  | .format => some 'f'
  | _ => none

def operand : Flag → Operand
  | .root | .readme | .dataFile | .testsDir | .nimCache | .htmlDir => .path
  | .projectName | .format => .text
  | .verbose | .help | .version | .noCoverageReport => .nothing

/-- The flags that are understood everywhere. -/
def everywhere : List Flag := [.root, .verbose, .help, .version]

/-- The flags that configure a run. -/
def configuring : List Flag :=
  [.readme, .dataFile, .testsDir, .nimCache, .htmlDir, .projectName, .noCoverageReport]

/-- The flags that are understood at a level. -/
def ofLevel : Level → List Flag
  | none => everywhere
  | some .generate => everywhere ++ configuring ++ [.format]
  | some .doctor => everywhere ++ [.format]
  | some .clean => everywhere ++ configuring

end Flag
end StatusBadges.CommandLine
