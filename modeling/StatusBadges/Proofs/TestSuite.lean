import Mathlib.Data.List.TakeWhile
import StatusBadges.Proofs.Command.Sequence
import StatusBadges.Proofs.Text
import StatusBadges.TestSuite.Run

/-!
# What a test run says

Colours are taken out of a line from left to right, sequence by sequence (`Uncolored`), which is
what `strip` does (`uncolored_iff`). What is left says whether the line reports a pass or a failure.
The results of a run follow from the answer to its one command and from the number of test blocks
that it leaves (`Verdict`), whatever is in the output (`verdict_of_run`).
-/

namespace StatusBadges.TestSuite

open Session

/-! ## Colours -/

/-- An escape and an opening bracket, then parameters, then the letter `m`. -/
def IsColor (s : List Char) : Prop :=
  ∃ parameters, (∀ c ∈ parameters, isParameter c = true) ∧
    s = '\x1b' :: '[' :: (parameters ++ ['m'])

theorem afterColor?_eq_some_iff {s rest : List Char} :
    afterColor? s = some rest ↔ ∃ color, IsColor color ∧ s = color ++ rest := by
  constructor
  · intro h
    unfold afterColor? at h
    split at h
    · next behind =>
      split at h
      · next more hmore =>
        cases h
        refine ⟨_, ⟨behind.takeWhile isParameter, fun c hc => List.mem_takeWhile_imp hc, rfl⟩, ?_⟩
        have hsplit := behind.takeWhile_append_dropWhile (p := isParameter)
        rw [hmore] at hsplit
        rw [List.cons_append, List.cons_append, List.append_assoc, List.singleton_append, hsplit]
      · cases h
    · cases h
  · intro h
    obtain ⟨_, ⟨parameters, hparameters, rfl⟩, rfl⟩ := h
    have hend : (parameters ++ 'm' :: rest).dropWhile isParameter = 'm' :: rest := by
      rw [List.dropWhile_append_of_pos hparameters]
      rfl
    simp [afterColor?, hend]

/-- A text without colours: those at the front are left out, one after the other, and a character
at which none begins is kept. -/
inductive Uncolored : List Char → List Char → Prop
  | nil : Uncolored [] []
  | color {color rest text : List Char} (hcolor : IsColor color) (h : Uncolored rest text) :
      Uncolored (color ++ rest) text
  | char {c : Char} {rest text : List Char}
      (hno : ∀ color behind, IsColor color → c :: rest ≠ color ++ behind)
      (h : Uncolored rest text) : Uncolored (c :: rest) (c :: text)

theorem strip_of_afterColor? {s rest : List Char} (h : afterColor? s = some rest) :
    strip s = strip rest := by
  cases s with
  | nil => cases h
  | cons c more =>
    rw [strip]
    split
    · next after hafter =>
      rw [h] at hafter
      cases hafter
      rfl
    · next hnone =>
      rw [h] at hnone
      cases hnone

theorem strip_cons_of_none {c : Char} {rest : List Char} (h : afterColor? (c :: rest) = none) :
    strip (c :: rest) = c :: strip rest := by
  rw [strip]
  split
  · next after hafter =>
    rw [h] at hafter
    cases hafter
  · rfl

theorem afterColor?_eq_none_iff {s : List Char} :
    afterColor? s = none ↔ ∀ color behind, IsColor color → s ≠ color ++ behind := by
  rw [Option.eq_none_iff_forall_ne_some]
  constructor
  · intro h color behind hcolor e
    exact h behind (afterColor?_eq_some_iff.2 ⟨color, hcolor, e⟩)
  · intro h behind hsome
    obtain ⟨color, hcolor, e⟩ := afterColor?_eq_some_iff.1 hsome
    exact h color behind hcolor e

/-- **Stripping takes out the colours.** -/
theorem uncolored_iff {s text : List Char} : Uncolored s text ↔ strip s = text := by
  constructor
  · intro h
    induction h with
    | nil => rw [strip]
    | color hcolor _ ih =>
      rw [strip_of_afterColor? (afterColor?_eq_some_iff.2 ⟨_, hcolor, rfl⟩), ih]
    | char hno _ ih => rw [strip_cons_of_none (afterColor?_eq_none_iff.2 hno), ih]
  · intro h
    subst h
    fun_induction strip s with
    | case1 => exact .nil
    | case2 c rest after hafter ih =>
      obtain ⟨color, hcolor, e⟩ := afterColor?_eq_some_iff.1 hafter
      rw [e]
      exact .color hcolor ih
    | case3 c rest hnone ih => exact .char (afterColor?_eq_none_iff.1 hnone) ih

/-! ## Lines -/

/-- Without colours the line names a compiled test file as passed. -/
def PassLine (line : List Char) : Prop :=
  ∃ text, Uncolored line text ∧ "PASS:".toList <:+: text ∧ ".nim c".toList <:+: text

/-- Without colours the line names a failure, and it is no pass line. -/
def FailLine (line : List Char) : Prop :=
  ¬ PassLine line ∧ ∃ text, Uncolored line text ∧ "FAIL:".toList <:+: text

theorem passLine_iff {line : List Char} : PassLine line ↔ reportsPass (strip line) = true := by
  simp only [PassLine, uncolored_iff, exists_eq_left', reportsPass, Bool.and_eq_true,
    Text.occurs_iff]
  rfl

theorem failLine_iff {line : List Char} : FailLine line ↔ reportsFailure (strip line) = true := by
  simp only [FailLine, passLine_iff, uncolored_iff, exists_eq_left', reportsFailure,
    Bool.and_eq_true, Bool.not_eq_true', Bool.not_eq_true, Text.occurs_iff]
  rfl

/-- The output has a pass line. -/
def HasPass (o : Output) : Prop := ∃ line ∈ Text.lines o.combined, PassLine line

/-- The output has a fail line. -/
def HasFail (o : Output) : Prop := ∃ line ∈ Text.lines o.combined, FailLine line

theorem passed_pos_iff {o : Output} : 0 < (outcomes o.combined).passed ↔ HasPass o := by
  simp only [outcomes, List.countP_pos_iff, HasPass, passLine_iff]

theorem failed_pos_iff {o : Output} : 0 < (outcomes o.combined).failed ↔ HasFail o := by
  simp only [outcomes, List.countP_pos_iff, HasFail, failLine_iff]

/-! ## Runs -/

/-- What the results of a run are, given the answer to its command and the number of test blocks. -/
structure Verdict (answer : Except Failure Output) (blocks : Nat) (results : TestResults) :
    Prop where
  passing : results.status = .passing ↔
    ∃ output, answer = .ok output ∧ output.code = 0 ∧ HasPass output ∧ ¬ HasFail output
  failing : results.status = .failing ↔ (∃ failure, answer = .error failure) ∨
    ∃ output, answer = .ok output ∧ (output.code ≠ 0 ∨ HasFail output)
  noTests : results.status = .noTests ↔
    ∃ output, answer = .ok output ∧ output.code = 0 ∧ ¬ HasPass output ∧ ¬ HasFail output
  functions : results.testFunctions = results.total
  total : results.total = results.passed + results.failed
  allPass : results.status = .passing → results.passed = blocks ∧ results.failed = 0
  /-- A run that ends well but has a fail line fails all tests. -/
  allFail : (∃ output, answer = .ok output ∧ output.code = 0 ∧ HasFail output) →
    results.failed = blocks ∧ results.passed = 0
  nothing : results.status ≠ .passing →
    (¬ ∃ output, answer = .ok output ∧ output.code = 0 ∧ HasFail output) →
    results = .none results.status

/-- The results that follow from the answer to the command. -/
def resultsOf (blocks : Nat) : Except Failure Output → TestResults
  | .ok output => .aggregate output.code (outcomes output.combined) blocks
  | .error _ => .none .failing

theorem verdict_resultsOf (answer : Except Failure Output) (blocks : Nat) :
    Verdict answer blocks (resultsOf blocks answer) := by
  cases answer with
  | error failure => constructor <;> simp [resultsOf, TestResults.none]
  | ok output =>
    have hpass := passed_pos_iff (o := output)
    have hfail := failed_pos_iff (o := output)
    by_cases hcode : output.code = 0
    · by_cases hf : HasFail output
      · have e : resultsOf blocks (.ok output) = ⟨.failing, 0, blocks, blocks, blocks⟩ := by
          simp [resultsOf, TestResults.aggregate, hcode, hfail, hf]
        constructor <;> simp [e, hcode, hf]
      · by_cases hp : HasPass output
        · have e : resultsOf blocks (.ok output) = ⟨.passing, blocks, 0, blocks, blocks⟩ := by
            simp [resultsOf, TestResults.aggregate, hcode, hfail, hf, hpass, hp]
          constructor <;> simp [e, hcode, hf, hp]
        · have e : resultsOf blocks (.ok output) = .none .noTests := by
            simp [resultsOf, TestResults.aggregate, hcode, hfail, hf, hpass, hp]
          constructor <;> simp [e, TestResults.none, hcode, hf, hp]
    · have e : resultsOf blocks (.ok output) = .none .failing := by
        simp [resultsOf, TestResults.aggregate, hcode]
      constructor <;> simp [e, TestResults.none, hcode]

theorem run_run (tools : Toolbox) (root testsDir : Path) (s : Session) :
    (run tools root testsDir).run s =
      (resultsOf (countSuiteBlocks (s.after tools (command root)).disk testsDir)
        (s.answer tools (command root)), s.after tools (command root)) := by
  rw [run, run_issue_bind]
  cases s.answer tools (command root) with
  | error failure => rfl
  | ok output =>
    by_cases hcode : output.code = 0
    · have hok : output.success = true := decide_eq_true hcode
      simp only [hok, if_true, run_ask_bind, resultsOf]
      rfl
    · have hno : output.success = false := decide_eq_false hcode
      simp only [hno, Bool.false_eq_true, if_false, resultsOf, TestResults.aggregate, ne_eq, hcode,
        not_false_eq_true, if_true]
      rfl

/-- **The results of a test run follow from the answer to its command.** The test blocks are counted
in the files that the command leaves. -/
theorem verdict_of_run (tools : Toolbox) (root testsDir : Path) (s : Session) :
    issuedBy (run tools root testsDir) s =
        [⟨"testament", ["pattern", "tests/t*.nim", "--print"], some root⟩] ∧
      ((run tools root testsDir).run s).2 = s.after tools (command root) ∧
      Verdict (s.answer tools (command root))
        (countSuiteBlocks ((run tools root testsDir).run s).2.disk testsDir)
        ((run tools root testsDir).run s).1 := by
  rw [issuedBy, run_run, issued_after, List.drop_left]
  exact ⟨rfl, rfl, verdict_resultsOf _ _⟩

end StatusBadges.TestSuite
