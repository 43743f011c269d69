import StatusBadges.CommandLine.Request
import StatusBadges.Doctor
import StatusBadges.Pipeline
/-!
# Running a request

What the program prints and the code with which it exits. The texts are for people; with the JSON
format the summary or report is printed as a document.
-/

namespace StatusBadges.CommandLine

/-- How the program ends. -/
structure Outcome where
  code : Nat
  stdout : String
  /-- The line on the error stream, if there is one. -/
  complaint : Option String
  deriving DecidableEq, Repr

namespace Outcome

/-- A good end with a text. -/
def done (text : String) : Outcome := ⟨0, text, none⟩

/-- The exit code when something failed. -/
def failureCode : Nat := 1

/-- The exit code when the words make no sense. -/
def misuseCode : Nat := 2

end Outcome

/-! ## Help and version -/

def programName : String := "badge_generator"

def programVersion : String := "0.1.0"

/-- How to call the program. -/
def usage : String :=
  "Usage: " ++ programName ++ " [OPTIONS] [COMMAND]\n\nCommands: generate, doctor, clean, help\n"

/-- The line that tells the version at a level. -/
def versionLine (level : Level) : String :=
  programName ++ (level.map fun s => "-" ++ s.name).getD "" ++ " " ++ programVersion ++ "\n"

/-- How the program ends when there is nothing to perform. -/
def Stop.outcome : Stop → Outcome
  | .misuse => ⟨Outcome.misuseCode, "", none⟩
  | .help => .done usage
  | .version level => .done (versionLine level)

/-! ## Texts -/

/-- A document as the output of the program. -/
def documentText (document : Json) : String := String.ofList document.pretty ++ "\n"

def summaryText (s : Summary) : String :=
  "\nAll badges generated successfully!\n\nGenerated badges:\n" ++
    (s.badges.toList.map fun (name, url) => "  " ++ name ++ ": " ++ url ++ "\n").foldl (· ++ ·) ""
    ++ "\nCoverage: " ++ s.coverage.message ++ " (" ++ s.coverage.source.text ++ ")\n" ++
    if s.readmeUpdated then "" else "README not found, badge links were not updated\n"

/-- The line for a failed run. -/
def failureLine (failure : Failure) : String :=
  "Error generating badges: failed to write badge outputs: " ++ failure.message ++
    (failure.causeMessage?.map fun cause => ": " ++ cause).getD ""

def count (n : Nat) : String := String.ofList (Text.numeral n)

def cleanText (r : Coverage.CleanReport) : String :=
  "Cleaning coverage data...\nRemoved " ++ count r.counters ++ " .gcda files, " ++ count r.traces
    ++ " tracefiles, " ++ count r.compiledTests ++ " test executables" ++
    (if r.htmlReport then " and the HTML report" else "") ++ "\n"

/-! ## Requests -/

/-- Makes the badges and shows the summary. A failure to write is all that fails. -/
def generate (tools : Toolbox) (c : Config) (format : Format) : Step Outcome := do
  match ← Pipeline.run tools c with
  | .error failure => return ⟨Outcome.failureCode, "", some (failureLine failure)⟩
  | .ok summary =>
    match format with
    | .json => return .done (documentText summary.toJson)
    | .text => return .done (summaryText summary)

/-- Looks for the programs that a run uses and shows the report. -/
def doctor (tools : Toolbox) (format : Format) : Step Outcome := do
  let report ← Session.ask (Doctor.examine tools)
  let text := match format with
    | .json => documentText report.toJson
    | .text => report.text
  return ⟨if report.isBlocking then Outcome.failureCode else 0, text, none⟩

def clean (c : Config) : Step Outcome := do
  return .done (cleanText (← Coverage.clean c))

def perform (tools : Toolbox) : Request → Step Outcome
  | .generate c format => generate tools c format
  | .doctor format => doctor tools format
  | .clean c => clean c

def run (tools : Toolbox) (e : Environment) (words : List String) : Step Outcome :=
  match Request.read e words with
  | .error stop => return stop.outcome
  | .ok request => perform tools request

end StatusBadges.CommandLine
