import StatusBadges.Command.Session
import StatusBadges.TestSuite.Blocks
import StatusBadges.TestSuite.Results
/-!
# Running the tests

The tests are run by the test runner of the language, once for the whole suite. A run that cannot
be started counts as failing, like one that ends with an error.
-/

namespace StatusBadges.TestSuite

/-- The command that runs the tests. The runner itself expands the pattern. -/
def command (root : Path) : Command :=
  ((Command.new "testament").arguments ["pattern", "tests/t*.nim", "--print"]).inDirectory root

def run (tools : Toolbox) (root testsDir : Path) : Step TestResults := do
  match ← Session.issue tools (command root) with
  | .error _ => return .aggregate (-1) ⟨0, 0⟩ 0
  | .ok output =>
    if output.success then
      let blocks ← Session.ask fun d => countSuiteBlocks d testsDir
      return .aggregate output.code (outcomes output.combined) blocks
    else return .aggregate output.code ⟨0, 0⟩ 0

end StatusBadges.TestSuite
