import StatusBadges.Command.Session
import StatusBadges.Config
import StatusBadges.Sources
import StatusBadges.Storage.Update
/-!
# Artifacts of coverage runs

What a coverage run leaves behind: counters, trace files, compiled tests and the report. Removing
them never fails; what cannot be removed stays.
-/

namespace StatusBadges.Coverage

/-- The trace file of the whole run, in the root of the project. -/
def traceFile : String := "coverage.info"

/-- The trace file of the project's own sources, in the root of the project. -/
def sourceTraceFile : String := "coverage_src.info"

def isCounterName (n : Name) : Bool := n.extension? = some ['g', 'c', 'd', 'a']

/-- Whether a file among the tests is taken for a compiled test: it may be executed and is no
source. -/
def isCompiledTest (n : Name) (node : Node) : Bool :=
  n.extension? != some Sources.sourceExtension && node.isExecutable

/-- Removes the counters below a directory and counts them. -/
def removeCounters (p : Path) (d : Disk) : Nat × Disk :=
  d.removeFilesBelow p fun n _ => isCounterName n

/-- Removes the compiled tests below a directory and counts them. -/
def removeCompiledTests (testsDir : Path) (d : Disk) : Nat × Disk :=
  d.removeFilesBelow testsDir isCompiledTest

/-- Removes a file, if that is possible, and counts it. -/
def removeIfPossible (p : Path) (d : Disk) : Nat × Disk :=
  match d.removeFile p with
  | .ok d => (1, d)
  | .error _ => (0, d)

def removeTraces (root : Path) : Step Nat := do
  let whole ← Session.change (removeIfPossible (root.join (.ofString traceFile)))
  let source ← Session.change (removeIfPossible (root.join (.ofString sourceTraceFile)))
  return whole + source

structure CleanReport where
  counters : Nat
  traces : Nat
  compiledTests : Nat
  /-- Whether the report was there and went. -/
  htmlReport : Bool
  deriving DecidableEq, Repr

/-- Removes a report directory and tells whether it was there and went. -/
def removeReport (htmlDir : Path) (d : Disk) : Bool × Disk :=
  if d.isDirectory htmlDir then
    match d.removeAll htmlDir with
    | (.ok _, d) => (true, d)
    | (.error _, d) => (false, d)
  else (false, d)

/-- Removes all that a coverage run can leave behind. -/
def clean (c : Config) : Step CleanReport := do
  let htmlReport ← Session.change (removeReport c.htmlPath)
  let inRoot ← Session.change (removeCounters c.root)
  let inCache ← Session.change (removeCounters c.nimCachePath)
  let traces ← removeTraces c.root
  let compiledTests ← Session.change (removeCompiledTests c.testsPath)
  return ⟨inRoot + inCache, traces, compiledTests, htmlReport⟩

end StatusBadges.Coverage
