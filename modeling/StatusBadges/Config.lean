import StatusBadges.Manifest
/-!
# Configuration

Where a run finds and leaves things. A configured path is absolute or is seen from the root of the
project. `Config.standard` is the configuration of a project without options, `Config.ofOptions`
that with the options of the command line.
-/

namespace StatusBadges

structure Config where
  root : Path
  readme : Path
  dataFile : Path
  testsDir : Path
  /-- The compiler cache, where coverage counters are written. -/
  nimCache : Path
  htmlDir : Path
  projectName : Option String
  coverageReport : Bool
  deriving DecidableEq, Repr

/-- The options of the command line that configure a run. -/
structure Options where
  readme : Path
  dataFile : Path
  testsDir : Path
  nimCache : Option Path
  htmlDir : Path
  projectName : Option String
  noCoverageReport : Bool
  deriving DecidableEq, Repr

namespace Config

/-! ## Defaults -/

def defaultReadme : Path := .ofString "README.md"

def defaultDataFile : Path := .ofString "badges/data.json"

def defaultTestsDir : Path := .ofString "tests"

def defaultHtmlDir : Path := .ofString "coverage_html"

/-- The compiler cache of a user with this home directory. -/
def defaultNimCache (home : Option String) : Path :=
  ((Path.ofString (home.getD "")).join (.ofString ".cache")).join (.ofString "nim")

/-- The configuration of a project without options. -/
def standard (home : Option String) (root : Path) : Config where
  root := root
  readme := defaultReadme
  dataFile := defaultDataFile
  testsDir := defaultTestsDir
  nimCache := defaultNimCache home
  htmlDir := defaultHtmlDir
  projectName := none
  coverageReport := true

/-- The configuration of a project with options. -/
def ofOptions (home : Option String) (root : Path) (o : Options) : Config where
  root := root
  readme := o.readme
  dataFile := o.dataFile
  testsDir := o.testsDir
  nimCache := o.nimCache.getD (defaultNimCache home)
  htmlDir := o.htmlDir
  projectName := o.projectName
  coverageReport := !o.noCoverageReport

/-! ## Resolved paths -/

/-- A configured path, seen from the working directory. -/
def resolve (c : Config) (p : Path) : Path := if p.isAbsolute then p else c.root.join p

def readmePath (c : Config) : Path := c.resolve c.readme

def dataPath (c : Config) : Path := c.resolve c.dataFile

def testsPath (c : Config) : Path := c.resolve c.testsDir

def htmlPath (c : Config) : Path := c.resolve c.htmlDir

def nimCachePath (c : Config) : Path := c.resolve c.nimCache

/-! ## The name of the project -/

/-- The name of the project: the given one, else that of the manifest without its extension, else
that of the root directory. -/
def name (c : Config) (d : Disk) : String :=
  match c.projectName with
  | some name => name
  | none =>
    match (Manifest.find? d c.root).bind Path.fileName? with
    | some manifest => String.ofList manifest.stem
    | none =>
      match d.canonicalName? c.root with
      | some name => String.ofList name
      | none => "Project"

end Config

/-- The options when none is given. -/
def Options.none : Options where
  readme := Config.defaultReadme
  dataFile := Config.defaultDataFile
  testsDir := Config.defaultTestsDir
  nimCache := Option.none
  htmlDir := Config.defaultHtmlDir
  projectName := Option.none
  noCoverageReport := false

end StatusBadges
