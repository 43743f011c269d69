import StatusBadges.Proofs.Coverage.Census
import StatusBadges.Proofs.Coverage.Schedule
import StatusBadges.Proofs.Storage.Search

/-!
# Programs left over from earlier builds

A measurement runs the program of a test when there is one at the turn of the test, and does not
look at what became of its compilation (`runs_iff_program`). The program may have been there before
the first command, so that a test that did not compile is run all the same (`leftover_runs`).
-/

namespace StatusBadges

theorem Name.eq_of_stem {m n : Name} (hm : Sources.isTestName m = true)
    (hn : Sources.isTestName n = true) (h : m.stem = n.stem) : m = n := by
  have hstem {n : Name} (hn : Sources.isTestName n = true) :
      n = n.stem ++ '.' :: Sources.sourceExtension := by
    have hext := extension?_of_isTestName hn
    unfold extension? at hext
    unfold stem
    cases hdot : n.atLastDot? with
    | none => simp [hdot] at hext
    | some parts =>
      obtain ⟨before, after⟩ := parts
      rw [hdot] at hext
      obtain rfl : after = Sources.sourceExtension := by simpa using hext
      exact (eq_append_of_atLastDot? hdot).1
  rw [hstem hm, hstem hn, h]

/-- The only test file in a directory. -/
theorem Sources.testFiles_eq_singleton {d : Disk} {testsDir p test : Path} {l : Location}
    (hsearch : d.searchPath? testsDir = some p) (hres : d.resolve p = .ok l)
    (hl : d.tree.node? l = some .directory) (hdot : p.chars ≠ ['.'])
    (hfiles : (((d.tree.names l).filter isTestName).map p.child).filter d.isFile = [test]) :
    testFiles d testsDir = [test] := by
  simp only [testFiles, Disk.filesIn, hsearch, hres, hl, if_neg hdot, if_true, hfiles]
  exact List.mergeSort_singleton _

namespace Coverage

open Session

/-! ## Tests and their programs -/

/-- Different test files have different programs. -/
theorem withoutExtension_injOn {d : Disk} {testsDir a b : Path}
    (ha : a ∈ Sources.testFiles d testsDir) (hb : b ∈ Sources.testFiles d testsDir)
    (h : a.withoutExtension = b.withoutExtension) : a = b := by
  obtain ⟨p, names, -, hnames, hperm⟩ :=
    Disk.exists_names_of_filesIn d testsDir Sources.isTestName
  obtain ⟨m, hm, rfl⟩ := List.mem_map.1 (hperm.mem_iff.1 ha)
  obtain ⟨n, hn, rfl⟩ := List.mem_map.1 (hperm.mem_iff.1 hb)
  obtain ⟨hmtest, hmplain⟩ := hnames m hm
  obtain ⟨hntest, hnplain⟩ := hnames n hn
  have hslash {n : Name} (hn : n.isPlain = true) : '/' ∉ n.stem := fun hmem =>
    (Name.isPlain_iff.1 hn).2.2.2.1 (n.stem_prefix.subset hmem)
  rw [Path.withoutExtension_child hmplain, Path.withoutExtension_child hnplain] at h
  have hstem := Path.child_injective (hslash hmplain) (hslash hnplain) h
  rw [Name.eq_of_stem hmtest hntest hstem]

theorem runCommand_injOn {root : Path} {d : Disk} {testsDir a b : Path}
    (ha : a ∈ Sources.testFiles d testsDir) (hb : b ∈ Sources.testFiles d testsDir)
    (h : runCommand root a = runCommand root b) : a = b := by
  have hprogram : a.withoutExtension.toString = b.withoutExtension.toString :=
    congrArg Command.program h
  exact withoutExtension_injOn ha hb (Path.toString_injective hprogram)

/-! ## The turns of the tests -/

/-- The tests that stand before a test. -/
def earlier (tests : List Path) (test : Path) : List Path := tests.takeWhile (· ≠ test)

section Turns

variable (tools : Toolbox) (c : Config) (s : Session)

/-- Whether a test was compiled: the command for it was started and ended well. -/
def Compiled (test : Path) : Prop :=
  succeeded (((beforeSearch tools c s).afterAll tools
    ((earlier (suite tools c s) test).map (compileCommand c.root))).answer tools
      (compileCommand c.root test)) = true

/-- The commands from the first one up to the turn of a test. -/
def commandsBefore (test : Path) : List Command :=
  resetCommands c ++ (suite tools c s).map (compileCommand c.root) ++
    (ready tools c.root (beforeRuns tools c s) (earlier (suite tools c s) test)).map
      (runCommand c.root)

/-- The disk at the turn of a test. -/
def turn (test : Path) : Disk :=
  ((withoutCounters c s).afterAll tools (commandsBefore tools c s test)).disk

variable {tools c s}

theorem ready_subset (tools : Toolbox) (root : Path) (s : Session) (tests : List Path) :
    ready tools root s tests ⊆ tests := by
  induction tests generalizing s with
  | nil => exact List.Subset.refl _
  | cons test rest ih =>
    rw [ready]
    split
    · exact List.cons_subset_cons _ (ih _)
    · exact List.subset_cons_of_subset _ (ih s)

theorem mem_ready_iff {root test : Path} {tests : List Path} (hnodup : tests.Nodup)
    (ht : test ∈ tests) (s : Session) :
    test ∈ ready tools root s tests ↔
      (s.afterAll tools ((ready tools root s (earlier tests test)).map
        (runCommand root))).disk.isFile test.withoutExtension = true := by
  induction tests generalizing s with
  | nil => cases ht
  | cons first rest ih =>
    obtain ⟨hfirst, hrest⟩ := List.nodup_cons.1 hnodup
    by_cases e : first = test
    · subst e
      have hnone : earlier (first :: rest) first = [] := by simp [earlier]
      rw [hnone, ready.eq_def tools root s (first :: rest)]
      by_cases h : s.disk.isFile first.withoutExtension = true
      · simp [ready, h]
      · simpa [ready, h] using fun hm => hfirst (ready_subset tools root s rest hm)
    · have hmore : earlier (first :: rest) test = first :: earlier rest test := by
        simp [earlier, e]
      have htrest : test ∈ rest := (List.mem_cons.1 ht).resolve_left (Ne.symm e)
      rw [hmore, ready, ready]
      split
      · rw [List.mem_cons, or_iff_right (Ne.symm e), ih hrest htrest, List.map_cons, afterAll_cons]
      · exact ih hrest htrest s

theorem mem_ran_iff {test : Path} (ht : test ∈ suite tools c s) :
    test ∈ ran tools c s ↔ (turn tools c s test).isFile test.withoutExtension = true := by
  have hnodup : (suite tools c s).Nodup := Disk.nodup_filesIn _ _ _
  rw [ran, mem_ready_iff hnodup ht, turn, commandsBefore, afterAll_append, afterAll_append]
  rfl

/-- Of the commands of a measurement only those that run a test have no arguments. -/
theorem Scheduled.exists_ran {command : Command} (h : Scheduled tools c s command)
    (hargs : command.args = []) : ∃ test ∈ ran tools c s, runCommand c.root test = command := by
  cases h with
  | test test h => exact ⟨test, h, rfl⟩
  | reset | compile | capture | extract | summary | report =>
    simp [resetCommand, compileCommand, captureCommand, extractCommand, summaryCommand, dueReport,
      reportCommand, Command.arguments, Command.pathArg, Command.arg, Command.inDirectory] at hargs

theorem runCommand_mem_commands_iff {test : Path} (ht : test ∈ suite tools c s) :
    runCommand c.root test ∈ commands tools c s ↔ test ∈ ran tools c s := by
  constructor
  · intro h
    obtain ⟨other, hother, hsame⟩ := (mem_commands_iff.1 h).exists_ran rfl
    obtain rfl := runCommand_injOn (ready_subset _ _ _ _ hother) ht hsame
    exact hother
  · intro h
    exact mem_commands_iff.2 (.test test h)

end Turns

/-- **The program of a test is run exactly when it is a regular file** at the turn of the test. It
was there before the first command, or one of the commands since then put it there. Hence all tests
that are run were compiled exactly when no other test has a program at its turn. -/
theorem runs_iff_program (tools : Toolbox) (c : Config) (s : Session) :
    if (tools.locate s.disk "lcov").isSome then
      (∀ test ∈ suite tools c s, runCommand c.root test ∈ issuedBy (calculate tools c) s ↔
        (turn tools c s test).isFile test.withoutExtension = true) ∧
      (∀ test ∈ suite tools c s, ∀ n, (turn tools c s test).node? test.withoutExtension = some n →
        (withoutCounters c s).disk.node? test.withoutExtension = some n ∨
          (withoutCounters c s).Puts tools (commandsBefore tools c s test)
            test.withoutExtension n) ∧
      ((∀ test ∈ suite tools c s, runCommand c.root test ∈ issuedBy (calculate tools c) s →
          Compiled tools c s test) ↔
        ∀ test ∈ suite tools c s, ¬ Compiled tools c s test →
          (turn tools c s test).isFile test.withoutExtension = false)
    else ((calculate tools c).run s).2 = s := by
  split
  · next hl =>
    have hruns (test : Path) (ht : test ∈ suite tools c s) :
        runCommand c.root test ∈ issuedBy (calculate tools c) s ↔
          (turn tools c s test).isFile test.withoutExtension = true := by
      rw [issuedBy_calculate tools c s hl, runCommand_mem_commands_iff ht, mem_ran_iff ht]
    refine ⟨hruns, fun test _ n hn => seen_or_puts hn, ?_⟩
    constructor
    · intro h test ht hno
      rw [← Bool.not_eq_true, ← hruns test ht]
      exact fun hrun => hno (h test ht hrun)
    · intro h test ht hrun
      by_cases hc : Compiled tools c s test
      · exact hc
      · rw [hruns test ht, h test ht hc] at hrun
        cases hrun
  · next hl => rw [run_calculate_of_not_located c hl]

/-! ## A program that was left over -/

/-- A project with a test and its program. -/
def leftoverProject : Session where
  disk :=
    { tree :=
        { entries :=
            [(["proj".toList], .directory), (["proj".toList, "tests".toList], .directory),
              (["proj".toList, "tests".toList, "t_a".toList], .file (.text "#!/bin/sh\n") 0o755),
              (["proj".toList, "tests".toList, "t_a.nim".toList],
                .file (.text "block:\n  discard\n") 0o644)]
          distinct := by decide
          rooted := by decide
          named := by decide }
      here := [] }
  issued := []

/-- A machine with all programs, on which only the compiler fails. No command changes files. -/
def failingCompiler : Toolbox where
  locate _ program := some (.ofString program)
  run _ _ command := (.ok ⟨if command.program = "nim" then 1 else 0, "", ""⟩, [])
  localTime := ""

/-- **A program that was left over is run**, although its test does not compile. -/
theorem leftover_runs :
    .ofString "/proj/tests/t_a.nim" ∈ suite failingCompiler plainConfig leftoverProject ∧
      ¬ Compiled failingCompiler plainConfig leftoverProject (.ofString "/proj/tests/t_a.nim") ∧
      runCommand (.ofString "/proj") (.ofString "/proj/tests/t_a.nim") ∈
        issuedBy (calculate failingCompiler plainConfig) leftoverProject := by
  have hpassive : failingCompiler.Passive := fun _ _ _ t ht => nomatch ht
  have hsettled :=
    settled_withoutCounters plainConfig (s := leftoverProject) (Disk.settled_of_node? rfl)
  have hsuite : suite failingCompiler plainConfig leftoverProject =
      [.ofString "/proj/tests/t_a.nim"] := by
    rw [suite, beforeSearch, hpassive.disk_afterAll hsettled]
    exact Sources.testFiles_eq_singleton (p := .ofString "/proj/tests")
      (l := ["proj".toList, "tests".toList]) (by decide) rfl rfl (by decide) (by decide)
  refine ⟨by simp [hsuite], ?_, ?_⟩
  · have hanswer (s : Session) : succeeded (s.answer failingCompiler
        (compileCommand (.ofString "/proj") (.ofString "/proj/tests/t_a.nim"))) = false := rfl
    rw [Compiled, Bool.not_eq_true]
    exact hanswer _
  · rw [issuedBy_calculate _ _ _ rfl]
    change runCommand plainConfig.root _ ∈ _
    rw [runCommand_mem_commands_iff (by simp [hsuite]), mem_ran_iff (by simp [hsuite]), turn,
      hpassive.disk_afterAll hsettled]
    decide

end Coverage
end StatusBadges
