import StatusBadges.Storage.Search
/-!
# Nim sources

The sources of a project are the `.nim` files below its root. Directories of version control and of
compiler caches are not entered. The test files of a suite are the files `t_*.nim` directly in its
directory.
-/

namespace StatusBadges.Sources

def sourceExtension : List Char := ['n', 'i', 'm']

/-- The directories that are not entered, as texts. -/
def skippedNames : List String := [".git", ".hg", ".svn", "nimcache", "nimblecache"]

/-- Whether a directory below the root is not entered. -/
def isSkipped (n : Name) : Bool := skippedNames.any fun s => s.toList = n

/-- Whether a file is a source that the walk from the root arrives at. A root that is itself a file
has no names below it and counts by its own name. -/
def isSource (root : Path) (names : List Name) : Bool :=
  (names.getLast?.or root.fileName?).bind Name.extension? = some sourceExtension &&
    !names.dropLast.any isSkipped

/-- The source files of a project, seen from its root, in order. -/
def nimFiles (d : Disk) (root : Path) : List Path :=
  Path.sort (((d.filesBelow root).filter fun e => isSource root e.1).map fun e => .ofNames e.1)

def isTestName (n : Name) : Bool :=
  ['t', '_'].isPrefixOf n && ['.', 'n', 'i', 'm'].isSuffixOf n &&
    ['t', '_', '.', 'n', 'i', 'm'].length ≤ n.length

/-- The test files in a directory, in order. -/
def testFiles (d : Disk) (testsDir : Path) : List Path := d.filesIn testsDir isTestName

end StatusBadges.Sources
