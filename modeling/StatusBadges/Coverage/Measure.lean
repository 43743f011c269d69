import StatusBadges.Coverage.Artifacts
import StatusBadges.Coverage.Census
import StatusBadges.Coverage.Summary
/-!
# Measuring coverage

Coverage is measured by compiling the tests with counters, running them and letting the coverage
tool sum up. A failure of a step that only adds to the measurement is passed over; without a trace
file or a summary there is no measurement, and coverage is estimated from the census instead.
-/

namespace StatusBadges.Coverage

/-! ## Commands -/

def resetCommand (root directory : Path) : Command :=
  ((Command.new "lcov").arguments ["--zerocounters", "--directory"] |>.pathArg directory)
    |>.inDirectory root

def compileCommand (root test : Path) : Command :=
  ((Command.new "nim").arguments
    ["c", "--debugger:native", "--passC:--coverage", "--passL:--coverage", "--verbosity:0",
     "--hints:off"] |>.pathArg test) |>.inDirectory root

def testCommand (root program : Path) : Command := (Command.new program.toString).inDirectory root

/-- Collects the counters of a directory in a trace file. -/
def captureCommand (root directory : Path) : Command :=
  ((Command.new "lcov").arguments ["--capture", "--directory"] |>.pathArg directory
    |>.arguments ["--output-file", traceFile]) |>.inDirectory root

/-- Extracts the project's own sources from the trace file. -/
def extractCommand (root : Path) : Command :=
  ((Command.new "lcov").arguments
    ["--extract", traceFile, "*/src/*", "--output-file", sourceTraceFile]) |>.inDirectory root

def summaryCommand (root : Path) : Command :=
  ((Command.new "lcov").arguments ["--summary", sourceTraceFile]) |>.inDirectory root

def reportCommand (root htmlDir : Path) (projectName : String) : Command :=
  ((Command.new "genhtml").arguments [sourceTraceFile, "--output-directory"] |>.pathArg htmlDir
    |>.arguments ["--title", projectName ++ " Source Code Coverage", "--no-function-coverage"])
    |>.inDirectory root

/-! ## Steps -/

/-- Whether a command was started and ended well. -/
def succeeded : Except Failure Output → Bool
  | .ok output => output.success
  | .error _ => false

def resetCounters (tools : Toolbox) (c : Config) : Step Unit := do
  let _ ← Session.change (removeCounters c.root)
  let _ ← Session.change (removeCounters c.nimCachePath)
  let _ ← Session.issue tools (resetCommand c.root c.root)
  let _ ← Session.issue tools (resetCommand c.root c.nimCachePath)

/-- Compiles each test file with counters. -/
def compileTests (tools : Toolbox) (root : Path) : List Path → Step Unit
  | [] => return
  | test :: rest => do
    let _ ← Session.issue tools (compileCommand root test)
    compileTests tools root rest

/-- Runs the compiled tests that there are, in the order of their sources. -/
def runTests (tools : Toolbox) (root : Path) : List Path → Step Unit
  | [] => return
  | test :: rest => do
    let program := test.withoutExtension
    if ← Session.ask fun d => d.isFile program then
      let _ ← Session.issue tools (testCommand root program)
    runTests tools root rest

def captureAndSummarize (tools : Toolbox) (c : Config) : Step (Option Binary64) := do
  let captured ← Session.issue tools (captureCommand c.root c.nimCachePath)
  let written ← Session.ask fun d => d.isFile (c.root.join (.ofString traceFile))
  if succeeded captured && written then
    let _ ← Session.issue tools (extractCommand c.root)
    match ← Session.issue tools (summaryCommand c.root) with
    | .ok output => return if output.success then summaryPercent? output.combined else none
    | .error _ => return none
  else return none

/-- Removes whatever stands in the place of the report. -/
def clearReport (htmlDir : Path) (d : Disk) : Unit × Disk :=
  if d.exists? htmlDir then ((), (d.removeAll htmlDir).2) else ((), d)

def writeReport (tools : Toolbox) (c : Config) : Step Unit := do
  Session.change (clearReport c.htmlPath)
  let projectName ← Session.ask c.name
  let _ ← Session.issue tools (reportCommand c.root c.htmlPath projectName)

/-- Measures the coverage of a project, if that is possible, and removes what the measurement left
behind. -/
def measure? (tools : Toolbox) (c : Config) : Step (Option Binary64) := do
  resetCounters tools c
  let tests ← Session.ask fun d => Sources.testFiles d c.testsPath
  compileTests tools c.root tests
  runTests tools c.root tests
  let percent ← captureAndSummarize tools c
  if percent.isSome && c.coverageReport then writeReport tools c
  let _ ← removeTraces c.root
  let _ ← Session.change (removeCompiledTests c.testsPath)
  return percent

/-- The coverage that the census of the project as it stands lets expect. -/
def estimateNow (c : Config) : Step Coverage :=
  Session.ask fun d => .ofCensus (Census.ofProject d c)

/-- The coverage of a project: measured where the coverage tool is there and the measurement
succeeds, else estimated. -/
def calculate (tools : Toolbox) (c : Config) : Step Coverage := do
  if ← Session.available tools "lcov" then
    match ← measure? tools c with
    | some percent => return ⟨percent, .measured⟩
    | none => estimateNow c
  else estimateNow c

end StatusBadges.Coverage
