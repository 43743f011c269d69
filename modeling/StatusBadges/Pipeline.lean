import StatusBadges.BadgeRecord
import StatusBadges.Build
import StatusBadges.Coverage.Measure
import StatusBadges.Readme
import StatusBadges.TestSuite.Run
/-!
# Generating badges

A run looks at the version, the build, the tests and the coverage of a project, makes the badges,
records them and updates the README. What it cannot find out shows on the badges; only a failure to
write its results fails the run.
-/

namespace StatusBadges

/-- What a run found out, and its badges. -/
structure Summary where
  version : String
  build : BuildStatus
  tests : TestResults
  coverage : Coverage
  badges : BadgeSet
  /-- Whether there was a README to update. -/
  readmeUpdated : Bool
  deriving DecidableEq, Repr

def Summary.toJson (s : Summary) : Json :=
  .object
    [("version".toList, .ofString s.version), ("build".toList, s.build.toJson),
     ("tests".toList, s.tests.toJson), ("coverage".toList, s.coverage.toJson),
     ("badges".toList, s.badges.toJson), ("readme_updated".toList, .bool s.readmeUpdated)]

/-- The badges of a version, a build status, test results and a coverage. -/
def BadgeSet.of (version : String) (build : BuildStatus) (tests : TestResults)
    (coverage : Coverage) : BadgeSet where
  version := Badge.url "version" ("v" ++ version) "blue"
  build := Badge.url "build" build.text build.color
  tests := Badge.url "tests" tests.message tests.status.color
  coverage := Badge.url "coverage" coverage.message coverage.color

namespace Pipeline

/-! ## Looking at the project -/

/-- Looks at the project and makes its badges. -/
def generate (tools : Toolbox) (c : Config) : Step Summary := do
  let version ← Session.ask fun d => Manifest.projectVersion d c.root
  let build ← Build.check tools c.root
  let tests ← TestSuite.run tools c.root c.testsPath
  let coverage ← Coverage.calculate tools c
  return ⟨version, build, tests, coverage, .of version build tests coverage, false⟩

/-! ## Keeping the results -/

def timeCommand : Command := (Command.new "date").arg "-Iseconds"

/-- The time, from a program or else from the clock of the machine. -/
def timestamp (tools : Toolbox) : Step String := do
  match ← Session.issue tools timeCommand with
  | .ok output =>
    let told := Text.trim output.stdout.toList
    return if output.success && !told.isEmpty then String.ofList told else tools.localTime
  | .error _ => return tools.localTime

/-- Saves a record in a file, with the directories above it. -/
def save (p : Path) (r : BadgeRecord) (d : Disk) : Except Failure Unit × Disk :=
  let (made, d) : Except Failure Unit × Disk :=
    match p.parent? with
    | none => (.ok (), d)
    | some above =>
      if above.chars = [] then (.ok (), d)
      else
        match d.makeDirectories above with
        | (.ok _, d) => (.ok (), d)
        | (.error cause, d) => (.error (.storage above cause), d)
  match made with
  | .error failure => (.error failure, d)
  | .ok _ =>
    match d.writeText p r.encode with
    | .ok d => (.ok (), d)
    | .error cause => (.error (.storage p cause), d)

/-- Updates the badge links of a README, if there is one, and tells whether there was. -/
def updateReadme (p : Path) (badges : BadgeSet) (d : Disk) : Except Failure Bool × Disk :=
  if d.isFile p then
    match d.readText p with
    | .error cause => (.error (.storage p cause), d)
    | .ok content =>
      match d.writeText p (Readme.update content badges) with
      | .error cause => (.error (.storage p cause), d)
      | .ok d => (.ok true, d)
  else (.ok false, d)

/-- Looks at the project, records its badges and updates its README. -/
def run (tools : Toolbox) (c : Config) : Step (Except Failure Summary) := do
  let summary ← generate tools c
  let time ← timestamp tools
  match ← Session.change (save c.dataPath ⟨time, summary.badges⟩) with
  | .error failure => return .error failure
  | .ok _ =>
    match ← Session.change (updateReadme c.readmePath summary.badges) with
    | .error failure => return .error failure
    | .ok updated => return .ok { summary with readmeUpdated := updated }

end Pipeline
end StatusBadges
