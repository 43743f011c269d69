import StatusBadges.Json.Document
import StatusBadges.TestSuite.Output
/-!
# Test results

The runner reports on test files, and the badge counts test blocks. Every block is taken to share
the outcome of the whole run.
-/

namespace StatusBadges

/-- The outcome of a test run. -/
inductive TestStatus where
  | noTests
  | passing
  /-- A test failed or the run did. -/
  | failing
  deriving DecidableEq, Repr

namespace TestStatus

def text : TestStatus → String
  | .noTests => "no tests"
  | .passing => "passing"
  | .failing => "failing"

def color : TestStatus → String
  | .noTests => "lightgrey"
  | .passing => "brightgreen"
  | .failing => "red"

end TestStatus

/-- The results of a test run, counted in test blocks. -/
structure TestResults where
  status : TestStatus
  passed : Nat
  failed : Nat
  total : Nat
  /-- The test functions, which are the blocks. -/
  testFunctions : Nat
  deriving DecidableEq, Repr

namespace TestResults

def none (status : TestStatus) : TestResults := ⟨status, 0, 0, 0, 0⟩

def message (r : TestResults) : String :=
  let total := String.ofList (Text.numeral r.total)
  if r.total = 0 then "no tests"
  else
    match r.status with
    | .failing => total ++ " tests (" ++ String.ofList (Text.numeral r.failed) ++ " failed)"
    | _ => total ++ " tests"

def toJson (r : TestResults) : Json :=
  .object
    [("status".toList, .ofString r.status.text), ("passed".toList, .ofNat r.passed),
     ("failed".toList, .ofNat r.failed), ("total".toList, .ofNat r.total),
     ("test_functions".toList, .ofNat r.testFunctions)]

/-- The results of a run with this exit code and these outcomes in a suite with so many blocks. -/
def aggregate (exitCode : Int) (outcomes : TestSuite.Outcomes) (blocks : Nat) : TestResults :=
  if exitCode ≠ 0 then none .failing
  else if 0 < outcomes.failed then ⟨.failing, 0, blocks, blocks, blocks⟩
  else if 0 < outcomes.passed then ⟨.passing, blocks, 0, blocks, blocks⟩
  else none .noTests

end TestResults
end StatusBadges
