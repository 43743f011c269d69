import StatusBadges.Command.Session
import StatusBadges.Json.Document
/-!
# Tool checks

The doctor reports which of the programs that a run uses are installed. A run needs the compiler
and the test runner; without the others it falls back.
-/

namespace StatusBadges.Doctor

structure Tool where
  name : String
  required : Bool
  fix : String

def tools : List Tool :=
  [⟨"nim", true, "Install Nim: https://nim-lang.org/install.html"⟩,
   ⟨"testament", true,
    "testament ships with Nim; make sure the Nim bin directory is on PATH"⟩,
   ⟨"lcov", false,
    "brew install lcov (macOS) or apt install lcov (Linux); coverage is estimated without it"⟩,
   ⟨"genhtml", false,
    "genhtml ships with lcov; HTML coverage reports are skipped without it"⟩,
   ⟨"date", false,
    "Install coreutils; timestamps are formatted internally without it"⟩]

structure Check where
  name : String
  ok : Bool
  required : Bool
  path : Option String
  fix : Option String

structure Report where
  status : String
  checks : List Check
  issues : Nat

def Tool.check (t : Tool) (box : Toolbox) (d : Disk) : Check :=
  match box.locate d t.name with
  | some p => ⟨t.name, true, t.required, some p.toString, none⟩
  | none => ⟨t.name, false, t.required, none, some t.fix⟩

def examine (box : Toolbox) (d : Disk) : Report :=
  let checks := tools.map fun t => t.check box d
  let issues := checks.countP fun c => !c.ok
  ⟨if issues = 0 then "ok" else "issues_found", checks, issues⟩

namespace Report

/-- Whether a program that a run needs is missing. -/
def isBlocking (r : Report) : Bool := r.checks.any fun c => c.required && !c.ok

/-! ## Text -/

def checkText (c : Check) : String :=
  if c.ok then "  ✓ " ++ c.name ++ ": " ++ c.path.getD "found" ++ "\n"
  else
    "  ✗ " ++ c.name ++ ": not found\n" ++
      match c.fix with
      | some fix => "    → " ++ fix ++ "\n"
      | none => ""

/-- The lines about the programs that are, or are not, needed. -/
def sectionText (r : Report) (title : String) (required : Bool) : String :=
  title ++ "\n" ++
    ((r.checks.filter fun c => c.required = required).map checkText).foldl (· ++ ·) "" ++ "\n"

/-- The last line of the text of a report. -/
def verdict (r : Report) : String :=
  if r.issues = 0 then "Status: All checks passed\n"
  else
    "Status: " ++ String.ofList (Text.numeral r.issues) ++
      (if r.issues = 1 then " issue" else " issues") ++ " found\n"

def text (r : Report) : String :=
  "Badge Generator Doctor\n======================\n\n" ++ r.sectionText "Required:" true ++
    r.sectionText "Optional:" false ++ r.verdict

/-! ## Document -/

/-- A field that is left out when it has no value. -/
def optionalField (name : String) (value : Option String) : List (List Char × Json) :=
  (value.map fun v => (name.toList, Json.ofString v)).toList

def checkJson (c : Check) : Json :=
  .object <|
    [("name".toList, .ofString c.name), ("ok".toList, .bool c.ok),
     ("required".toList, .bool c.required)] ++
    optionalField "path" c.path ++ optionalField "fix" c.fix

def toJson (r : Report) : Json :=
  .object
    [("status".toList, .ofString r.status), ("checks".toList, .array (r.checks.map checkJson)),
     ("issues_count".toList, .ofNat r.issues)]

end Report
end StatusBadges.Doctor
