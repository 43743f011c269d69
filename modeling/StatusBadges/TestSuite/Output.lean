import StatusBadges.Text.Search
/-!
# Output of the test runner

The test runner writes a line for each test file, which may be coloured. `strip` takes colour
sequences out of a line, and `outcomes` counts the lines that report a pass or a failure.
-/

namespace StatusBadges.TestSuite

/-! ## Colour sequences -/

/-- Whether a character can be among the parameters of a colour sequence. -/
def isParameter (c : Char) : Bool := c.isDigit || c = ';'

/-- What follows a colour sequence at the front of a text: escape, an opening bracket, parameters
and the letter `m`. -/
def afterColor? : List Char → Option (List Char)
  | '\x1b' :: '[' :: rest =>
    match rest.dropWhile isParameter with
    | 'm' :: rest => some rest
    | _ => none
  | _ => none

/-- A colour sequence is not empty. -/
theorem length_of_afterColor? {s rest : List Char} (h : afterColor? s = some rest) :
    rest.length < s.length := by
  unfold afterColor? at h
  split at h
  · rename_i s
    have hs : (s.dropWhile isParameter).length ≤ s.length :=
      (List.dropWhile_sublist isParameter).length_le
    split at h
    · rename_i more hm
      rw [hm] at hs
      cases h
      simp only [List.length_cons] at hs ⊢
      omega
    · cases h
  · cases h

/-- A text without the colour sequences in it. -/
def strip : List Char → List Char
  | [] => []
  | c :: rest =>
    match _h : afterColor? (c :: rest) with
    | some after => strip after
    | none => c :: strip rest
termination_by s => s.length
decreasing_by
  · exact length_of_afterColor? _h
  · exact Nat.lt_succ_self rest.length

/-! ## Outcomes -/

/-- How many test files passed and failed. -/
structure Outcomes where
  passed : Nat
  failed : Nat
  deriving DecidableEq, Repr

/-- Whether a line without colours reports a pass: it names a compiled test file as passed. -/
def reportsPass (line : List Char) : Bool :=
  Text.occurs ['P', 'A', 'S', 'S', ':'] line && Text.occurs ['.', 'n', 'i', 'm', ' ', 'c'] line

/-- Whether a line without colours reports a failure. -/
def reportsFailure (line : List Char) : Bool :=
  !reportsPass line && Text.occurs ['F', 'A', 'I', 'L', ':'] line

/-- The outcomes that the runner reports. -/
def outcomes (output : List Char) : Outcomes where
  passed := (Text.lines output).countP fun line => reportsPass (strip line)
  failed := (Text.lines output).countP fun line => reportsFailure (strip line)

end StatusBadges.TestSuite
