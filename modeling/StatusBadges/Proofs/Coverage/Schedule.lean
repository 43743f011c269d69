import StatusBadges.Proofs.Command.Sequence
import StatusBadges.Proofs.Coverage.Calculation

/-!
# The commands of a measurement

A measurement goes through phases, each of which begins in a session that the commands before it
have left: the counters are reset, the tests are compiled, those that have a program by then are run
(`ready`), the counters are captured and summed up, and the report is written. `commands` lists the
commands of all phases in their order. `commands_of_calculate` says that a calculation issues these
and no others, and that the answers to most of them do not matter.
-/

namespace StatusBadges.Coverage

open Session

/-! ## Phases -/

/-- The command that runs the program of a test. -/
def runCommand (root test : Path) : Command := testCommand root test.withoutExtension

/-- The tests whose program is a regular file when their turn comes, behind the programs of the
tests before them. -/
def ready (tools : Toolbox) (root : Path) : Session → List Path → List Path
  | _, [] => []
  | s, test :: rest =>
    if s.disk.isFile test.withoutExtension then
      test :: ready tools root (s.after tools (runCommand root test)) rest
    else ready tools root s rest

section Phases

variable (tools : Toolbox) (c : Config) (s : Session)

/-- The session without the counter files in the root and the compiler cache. -/
def withoutCounters : Session :=
  { s with disk := (removeCounters c.nimCachePath (removeCounters c.root s.disk).2).2 }

def resetCommands : List Command :=
  [resetCommand c.root c.root, resetCommand c.root c.nimCachePath]

/-- The session in which the test files are looked for. -/
def beforeSearch : Session := (withoutCounters c s).afterAll tools (resetCommands c)

/-- The test files that a measurement finds. -/
def suite : List Path := Sources.testFiles (beforeSearch tools c s).disk c.testsPath

/-- The session in which the first test is run. -/
def beforeRuns : Session :=
  (beforeSearch tools c s).afterAll tools ((suite tools c s).map (compileCommand c.root))

/-- The tests that a measurement runs. -/
def ran : List Path := ready tools c.root (beforeRuns tools c s) (suite tools c s)

/-- The session in which the counters are captured. -/
def beforeCapture : Session :=
  (beforeRuns tools c s).afterAll tools ((ran tools c s).map (runCommand c.root))

instance : Decidable (Captured tools c s) := inferInstanceAs (Decidable (_ ∧ _))

/-- The session in which the captured counters are summed up. -/
def beforeSummary : Session :=
  (beforeCapture tools c s).afterAll tools
    [captureCommand c.root c.nimCachePath, extractCommand c.root]

/-- The percentage that the summary states, if counters were captured. -/
def summedPercent? : Option Binary64 :=
  if Captured tools c (beforeCapture tools c s) then
    answeredPercent? ((beforeSummary tools c s).answer tools (summaryCommand c.root))
  else none

/-- The command that writes the report, which is named for the project as it is without the old
report. -/
def dueReport : Command :=
  reportCommand c.root c.htmlPath
    (c.name (clearReport c.htmlPath
      ((beforeSummary tools c s).after tools (summaryCommand c.root)).disk).2)

/-- The commands of a measurement, in their order. -/
def commands : List Command :=
  resetCommands c ++
    (suite tools c s).map (compileCommand c.root) ++
    (ran tools c s).map (runCommand c.root) ++
    [captureCommand c.root c.nimCachePath] ++
    (if Captured tools c (beforeCapture tools c s) then
      [extractCommand c.root, summaryCommand c.root] else []) ++
    (if (summedPercent? tools c s).isSome && c.coverageReport then
      [dueReport tools c s] else [])

end Phases

theorem settled_withoutCounters (c : Config) {s : Session} (hs : s.disk.Settled) :
    (withoutCounters c s).disk.Settled := by
  have hremove (p : Path) {d : Disk} (hd : d.Settled) : (removeCounters p d).2.Settled := by
    unfold removeCounters Disk.removeFilesBelow
    split
    · exact hd
    · split
      · exact Disk.settled_withTree d _
      · exact hd
  exact hremove _ (hremove _ hs)

/-! ## Runs of the phases -/

section Runs

variable (tools : Toolbox) (c : Config) (s : Session)

theorem run_compileTests (root : Path) (tests : List Path) :
    ((compileTests tools root tests).run s).2 =
      s.afterAll tools (tests.map (compileCommand root)) := by
  induction tests generalizing s with
  | nil => rfl
  | cons test rest ih =>
    rw [compileTests, run_issue_bind, ih, List.map_cons, afterAll_cons]

theorem run_runTests (root : Path) (tests : List Path) :
    ((runTests tools root tests).run s).2 =
      s.afterAll tools ((ready tools root s tests).map (runCommand root)) := by
  induction tests generalizing s with
  | nil => rfl
  | cons test rest ih =>
    rw [runTests, run_ask_bind, ready]
    by_cases h : s.disk.isFile test.withoutExtension = true
    · rw [if_pos h, if_pos h, List.map_cons, afterAll_cons]
      exact ih _
    · rw [if_neg h, if_neg h]
      exact ih s

theorem run_exercise : ((exercise tools c).run s).2 = beforeCapture tools c s := by
  unfold exercise
  rw [run_bind, run_ask_bind, run_bind, run_compileTests, run_runTests]
  rfl

theorem run_captureAndSummarize :
    ((captureAndSummarize tools c).run s).1 =
        (if Captured tools c s then
          answeredPercent? ((s.afterAll tools
            [captureCommand c.root c.nimCachePath, extractCommand c.root]).answer tools
              (summaryCommand c.root))
        else none) ∧
      ((captureAndSummarize tools c).run s).2 =
        s.afterAll tools (captureCommand c.root c.nimCachePath ::
          if Captured tools c s then [extractCommand c.root, summaryCommand c.root] else []) := by
  obtain ⟨events, h⟩ := capturing_captureAndSummarize tools c s
  generalize ((captureAndSummarize tools c).run s).1 = percent at h ⊢
  generalize ((captureAndSummarize tools c).run s).2 = last at h ⊢
  cases h with
  | failed h => rw [if_neg h, if_neg h]; exact ⟨rfl, rfl⟩
  | summed h h₁ h₂ =>
    subst h₁ h₂
    rw [if_pos h, if_pos h]
    exact ⟨rfl, rfl⟩

theorem percent_measure? : ((measure? tools c).run s).1 = summedPercent? tools c s := by
  rw [measure?_eq_measureOnly]
  have h := percent_measureOnly tools c s
  rw [run_exercise, (run_captureAndSummarize tools c _).1] at h
  exact h

theorem run_measureOnly :
    (measureOnly tools c).run s = (do
      if (summedPercent? tools c s).isSome && c.coverageReport then writeReport tools c
      return summedPercent? tools c s : Step (Option Binary64)).run
        ((captureAndSummarize tools c).run (beforeCapture tools c s)).2 := by
  have h := (run_captureAndSummarize tools c (beforeCapture tools c s)).1
  unfold measureOnly
  rw [run_bind, run_exercise, run_bind, h]
  rfl

theorem issued_captureAndSummarize :
    ((captureAndSummarize tools c).run (beforeCapture tools c s)).2.issued =
      s.issued ++ (resetCommands c ++ (suite tools c s).map (compileCommand c.root) ++
        (ran tools c s).map (runCommand c.root) ++ [captureCommand c.root c.nimCachePath] ++
        if Captured tools c (beforeCapture tools c s) then
          [extractCommand c.root, summaryCommand c.root] else []) := by
  rw [(run_captureAndSummarize tools c _).2, issued_afterAll, List.append_cons]
  simp only [beforeCapture, beforeRuns, beforeSearch, issued_afterAll, List.append_assoc]
  rfl

/-- What is summed up was captured. -/
theorem captured_of_summed (h : (summedPercent? tools c s).isSome = true) :
    Captured tools c (beforeCapture tools c s) := by
  unfold summedPercent? at h
  split at h
  · assumption
  · cases h

theorem issued_measure? : ((measure? tools c).run s).2.issued = s.issued ++ commands tools c s := by
  have hissued := issued_captureAndSummarize tools c s
  rw [measure?_eq_measureOnly, run_bind, run_measureOnly, commands, ← List.append_assoc]
  by_cases hdue : ((summedPercent? tools c s).isSome && c.coverageReport) = true
  · -- The report is named by the files as the summary leaves them.
    have hlast := (run_captureAndSummarize tools c (beforeCapture tools c s)).2
    rw [if_pos (captured_of_summed tools c s (Bool.and_eq_true_iff.1 hdue).1)] at hlast
    rw [if_pos hdue, if_pos hdue, ← hissued, hlast]
    rfl
  · rw [if_neg hdue, if_neg hdue, List.append_nil, ← hissued]
    rfl

theorem issuedBy_calculate (h : (tools.locate s.disk "lcov").isSome = true) :
    issuedBy (calculate tools c) s = commands tools c s := by
  rw [issuedBy, run_calculate_of_located c h, issued_measure?, List.drop_left]

/-- A command that a measurement issues. -/
inductive Scheduled : Command → Prop
  | reset (directory : Path) (h : directory = c.root ∨ directory = c.nimCachePath) :
      Scheduled (resetCommand c.root directory)
  | compile (test : Path) (h : test ∈ suite tools c s) : Scheduled (compileCommand c.root test)
  | test (test : Path) (h : test ∈ ran tools c s) : Scheduled (runCommand c.root test)
  | capture : Scheduled (captureCommand c.root c.nimCachePath)
  | extract (h : Captured tools c (beforeCapture tools c s)) : Scheduled (extractCommand c.root)
  | summary (h : Captured tools c (beforeCapture tools c s)) : Scheduled (summaryCommand c.root)
  | report (h : ((summedPercent? tools c s).isSome && c.coverageReport) = true) :
      Scheduled (dueReport tools c s)

variable {tools c s}

theorem mem_commands_iff {command : Command} :
    command ∈ commands tools c s ↔ Scheduled tools c s command := by
  simp only [commands, resetCommands, List.mem_append, List.mem_cons, List.mem_map,
    List.not_mem_nil, or_false, List.mem_ite_nil_right]
  constructor
  · intro h
    rcases h with ((((h | ⟨test, h, rfl⟩) | ⟨test, h, rfl⟩) | rfl) | ⟨h, hlast⟩) | ⟨h, rfl⟩
    · rcases h with rfl | rfl
      · exact .reset _ (.inl rfl)
      · exact .reset _ (.inr rfl)
    · exact .compile test h
    · exact .test test h
    · exact .capture
    · rcases hlast with rfl | rfl
      · exact .extract h
      · exact .summary h
    · exact .report h
  · intro h
    cases h with
    | reset directory h =>
      rcases h with rfl | rfl
      · simp
      · simp
    | compile test h => exact .inl (.inl (.inl (.inl (.inr ⟨test, h, rfl⟩))))
    | test test h => exact .inl (.inl (.inl (.inr ⟨test, h, rfl⟩)))
    | capture => exact .inl (.inl (.inr rfl))
    | extract h => exact .inl (.inr ⟨h, .inl rfl⟩)
    | summary h => exact .inl (.inr ⟨h, .inr rfl⟩)
    | report h => exact .inr ⟨h, rfl⟩

/-- Every command of a measurement runs in the root. -/
theorem Scheduled.directory {command : Command} (h : Scheduled tools c s command) :
    command.directory = some c.root := by
  cases h <;> rfl

end Runs

/-! ## Answers that do not matter -/

/-- The programs of two toolboxes do the same to the files, and capturing and summing up are
answered in the same way. -/
structure Agrees (c : Config) (tools tools' : Toolbox) : Prop where
  locate : tools'.locate = tools.locate
  files : ∀ issued d command, (tools'.run issued d command).2 = (tools.run issued d command).2
  answers : ∀ issued d command,
    command = captureCommand c.root c.nimCachePath ∨ command = summaryCommand c.root →
      (tools'.run issued d command).1 = (tools.run issued d command).1

section Agrees

variable {c : Config} {tools tools' : Toolbox}

theorem Agrees.issue_bind (h : Agrees c tools tools') (command : Command) {α : Type} (k : Step α) :
    (issue tools' command >>= fun _ => k) = (issue tools command >>= fun _ => k) := by
  funext s
  have e : s.after tools' command = s.after tools command := by
    simp only [after, issue, modifyGet, MonadStateOf.modifyGet, StateT.modifyGet, StateT.run,
      pure, h.files]
  have hrun := run_issue_bind tools' command (fun _ => k) s
  rw [e] at hrun
  exact hrun

theorem Agrees.issue_eq (h : Agrees c tools tools') {command : Command}
    (hc : command = captureCommand c.root c.nimCachePath ∨ command = summaryCommand c.root) :
    issue tools' command = issue tools command := by
  have e (issued : List Command) (d : Disk) :
      tools'.run issued d command = tools.run issued d command :=
    Prod.ext (h.answers issued d command hc) (h.files issued d command)
  simp only [issue, e]

theorem compileTests_congr (h : Agrees c tools tools') (root : Path) (tests : List Path) :
    compileTests tools' root tests = compileTests tools root tests := by
  induction tests with
  | nil => rfl
  | cons test rest ih => rw [compileTests, compileTests, ih, h.issue_bind]

theorem runTests_congr (h : Agrees c tools tools') (root : Path) (tests : List Path) :
    runTests tools' root tests = runTests tools root tests := by
  induction tests with
  | nil => rfl
  | cons test rest ih => simp only [runTests, ih, h.issue_bind]

theorem calculate_congr (h : Agrees c tools tools') : calculate tools' c = calculate tools c := by
  have hreset : resetCounters tools' c = resetCounters tools c := by
    simp only [resetCounters, h.issue_bind]
  have hcapture : captureAndSummarize tools' c = captureAndSummarize tools c := by
    simp only [captureAndSummarize, h.issue_eq (.inl rfl), h.issue_eq (.inr rfl), h.issue_bind]
  have hreport : writeReport tools' c = writeReport tools c := by
    simp only [writeReport, h.issue_bind]
  have hmeasure : measure? tools' c = measure? tools c := by
    simp only [measure?, hreset, hcapture, hreport, compileTests_congr h, runTests_congr h]
  simp only [calculate, Session.available, h.locate, hmeasure]

end Agrees

/-! ## All commands -/

/-- **A calculation issues the commands of a measurement, in their order, and no others**, each in
the root of the project; a percentage is measured exactly when the counters were captured and the
summary states one. Without the coverage tool nothing is issued. What the commands besides capturing
and summing up answer neither removes nor reorders any. -/
theorem commands_of_calculate (tools : Toolbox) (c : Config) (s : Session) :
    (if (tools.locate s.disk "lcov").isSome then
      ((calculate tools c).run s).2.issued = s.issued ++ commands tools c s ∧
        (((calculate tools c).run s).1.source = .measured ↔
          (summedPercent? tools c s).isSome = true)
    else ((calculate tools c).run s).2 = s) ∧
    (∀ command ∈ commands tools c s, command.directory = some c.root) ∧
    ∀ tools', Agrees c tools tools' → (calculate tools' c).run s = (calculate tools c).run s := by
  refine ⟨?_, fun command h => (mem_commands_iff.1 h).directory, fun tools' h => ?_⟩
  · split
    · next hl =>
      rw [run_calculate_of_located c hl]
      refine ⟨issued_measure? tools c s, ?_⟩
      rw [percent_measure?]
      cases summedPercent? tools c s <;> simp [ofCensus]
    · next hl => rw [run_calculate_of_not_located c hl]
  · rw [calculate_congr h]

/-- The configuration of a project without options. -/
def plainConfig : Config := .standard none (.ofString "/proj")

end StatusBadges.Coverage
