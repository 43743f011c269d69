import StatusBadges.Storage.Cause
import StatusBadges.Text.Quoted
import StatusBadges.Path.Basic
/-!
# Failures

What can go wrong in a run: a file operation, the start of a program, or the encoding of the badge
record.
-/

namespace StatusBadges

inductive Failure where
  | storage (path : Path) (cause : Cause)
  | launch (program : String) (cause : Cause)
  | encoding (text : String)
  deriving DecidableEq, Repr

namespace Failure

/-- The text of a failure, which ends with the text of its cause. -/
def message : Failure → String
  | .storage path cause =>
    "io error at " ++ String.ofList (Text.Quoted.encode path.chars) ++ ": " ++ cause.message
  | .launch program cause => "failed to run " ++ program ++ ": " ++ cause.message
  | .encoding text => "badge data encode error: " ++ text

def causeMessage? : Failure → Option String
  | .storage _ cause => some cause.message
  | .launch _ cause => some cause.message
  | .encoding _ => none

end Failure
end StatusBadges
