import StatusBadges.Proofs.Coverage.Schedule

/-!
# Trace files left over from earlier measurements

Before a measurement the counters of earlier ones are removed, but not their trace files. A trace
file that is there from the start passes for that of the capture when the capture writes none, and
its extract for that of the extraction (`measures_stale_traces`). `fresh_iff_not_stale` says that
this is the only way in which a measurement sums up what none of its commands wrote.
-/

namespace StatusBadges.Coverage

open Session

section Traces

variable (tools : Toolbox) (c : Config) (s : Session)

/-- The commands up to the capture. -/
def commandsToCapture : List Command :=
  resetCommands c ++ (suite tools c s).map (compileCommand c.root) ++
    (ran tools c s).map (runCommand c.root) ++ [captureCommand c.root c.nimCachePath]

/-- The commands up to the extraction. -/
def commandsToExtract : List Command := commandsToCapture tools c s ++ [extractCommand c.root]

/-- What the path leads to after some commands, if anything, was put there by one of them. A command
that writes a file anew empties it before. -/
def Fresh (commands : List Command) (p : Path) : Prop :=
  ∀ n, ((withoutCounters c s).afterAll tools commands).disk.node? p = some n →
    (withoutCounters c s).Puts tools commands p n

/-- The path leads after some commands to what was there before the first, and none of the commands
put it there. -/
def Stale (commands : List Command) (p : Path) : Prop :=
  ∃ n, (withoutCounters c s).disk.node? p = some n ∧
    ((withoutCounters c s).afterAll tools commands).disk.node? p = some n ∧
    ¬ (withoutCounters c s).Puts tools commands p n

/-- The trace file that the capture is taken to have written, and the extract that is summed up,
were put there by commands of the measurement. -/
def FreshTraces : Prop :=
  Fresh tools c s (commandsToCapture tools c s) (c.root.join (.ofString traceFile)) ∧
    Fresh tools c s (commandsToExtract tools c s) (c.root.join (.ofString sourceTraceFile))

/-- One of the two is a stale one. -/
def StaleTrace : Prop :=
  Stale tools c s (commandsToCapture tools c s) (c.root.join (.ofString traceFile)) ∨
    Stale tools c s (commandsToExtract tools c s) (c.root.join (.ofString sourceTraceFile))

variable {tools c s}

theorem fresh_iff {commands : List Command} {p : Path} :
    Fresh tools c s commands p ↔ ¬ Stale tools c s commands p := by
  constructor
  · rintro h ⟨n, -, hn, hno⟩
    exact hno (h n hn)
  · intro h n hn
    by_cases hputs : (withoutCounters c s).Puts tools commands p n
    · exact hputs
    · exact absurd ⟨n, (seen_or_puts hn).resolve_right hputs, hn, hputs⟩ h

theorem freshTraces_iff : FreshTraces tools c s ↔ ¬ StaleTrace tools c s := by
  rw [FreshTraces, StaleTrace, fresh_iff, fresh_iff, not_or]

/-- What is not there before the first command is not stale. -/
theorem not_stale_of_missing {commands : List Command} {p : Path}
    (h : (withoutCounters c s).disk.node? p = none) : ¬ Stale tools c s commands p := by
  rintro ⟨n, hn, -⟩
  rw [h] at hn
  cases hn

/-- A summary is asked for exactly when the counters were captured. -/
theorem summaryCommand_mem_commands_iff :
    summaryCommand c.root ∈ commands tools c s ↔ Captured tools c (beforeCapture tools c s) := by
  rw [mem_commands_iff]
  constructor
  · intro h
    generalize hcommand : summaryCommand c.root = command at h
    cases h with
    | extract h => exact h
    | summary h => exact h
    | reset | compile | test | capture | report =>
      simp [resetCommand, compileCommand, runCommand, testCommand, captureCommand, summaryCommand,
        dueReport, reportCommand, Command.new, Command.arguments, Command.pathArg, Command.arg,
        Command.inDirectory] at hcommand
  · exact .summary

end Traces

/-- **A measurement sums up stale traces exactly when such are there** where the capture and the
extraction leave theirs, and were not written over. What is summed up is fresh in a project without
trace files. -/
theorem fresh_iff_not_stale (tools : Toolbox) (c : Config) (s : Session) :
    if (tools.locate s.disk "lcov").isSome then
      (summaryCommand c.root ∈ issuedBy (calculate tools c) s ↔
        Captured tools c (beforeCapture tools c s)) ∧
      ((summaryCommand c.root ∈ issuedBy (calculate tools c) s → FreshTraces tools c s) ↔
        ¬ (Captured tools c (beforeCapture tools c s) ∧ StaleTrace tools c s)) ∧
      ((∀ name, name = traceFile ∨ name = sourceTraceFile →
          (withoutCounters c s).disk.node? (c.root.join (.ofString name)) = none) →
        FreshTraces tools c s)
    else ((calculate tools c).run s).2 = s := by
  split
  · next hl =>
    rw [issuedBy_calculate tools c s hl, summaryCommand_mem_commands_iff]
    refine ⟨Iff.rfl, ?_, fun hmissing => ?_⟩
    · rw [freshTraces_iff, not_and]
    · exact ⟨fresh_iff.2 (not_stale_of_missing (hmissing _ (.inl rfl))),
        fresh_iff.2 (not_stale_of_missing (hmissing _ (.inr rfl)))⟩
  · next hl => rw [run_calculate_of_not_located c hl]

/-- A project with the trace files of an earlier measurement. -/
def staleProject : Session where
  disk :=
    { tree :=
        { entries :=
            [(["proj".toList], .directory),
              (["proj".toList, traceFile.toList], .file (.text "TN:\n") 0o644),
              (["proj".toList, sourceTraceFile.toList], .file (.text "TN:\n") 0o644)]
          distinct := by decide
          rooted := by decide
          named := by decide }
      here := [] }
  issued := []

/-- A machine with all programs, which end well, state a coverage and change no files. -/
def idleTools : Toolbox where
  locate _ program := some (.ofString program)
  run _ _ _ := (.ok ⟨0, "  lines......: 85.5%\n", ""⟩, [])
  localTime := ""

/-- **Stale trace files are summed up as a measurement** when no command writes others. -/
theorem measures_stale_traces :
    summaryCommand (.ofString "/proj") ∈ issuedBy (calculate idleTools plainConfig) staleProject ∧
      ((calculate idleTools plainConfig).run staleProject).1.source = .measured ∧
      ¬ Fresh idleTools plainConfig staleProject
        (commandsToCapture idleTools plainConfig staleProject)
        (.ofString "/proj/coverage.info") ∧
      ¬ Fresh idleTools plainConfig staleProject
        (commandsToExtract idleTools plainConfig staleProject)
        (.ofString "/proj/coverage_src.info") := by
  have hpassive : idleTools.Passive := fun _ _ _ t ht => nomatch ht
  have hsettled :=
    settled_withoutCounters plainConfig (s := staleProject) (Disk.settled_of_node? rfl)
  have hstale (commands : List Command) (p : Path) {n : Node}
      (hn : (withoutCounters plainConfig staleProject).disk.node? p = some n) :
      ¬ Fresh idleTools plainConfig staleProject commands p := by
    intro hfresh
    refine hpassive.not_puts hsettled commands p n (hfresh n ?_)
    rw [hpassive.disk_afterAll hsettled, hn]
  have hcaptured : Captured idleTools plainConfig
      (beforeCapture idleTools plainConfig staleProject) := by
    have hdisk : (beforeCapture idleTools plainConfig staleProject).disk =
        (withoutCounters plainConfig staleProject).disk := by
      rw [beforeCapture, beforeRuns, beforeSearch, ← afterAll_append, ← afterAll_append,
        hpassive.disk_afterAll hsettled]
    refine ⟨rfl, ?_⟩
    rw [hpassive.disk_after (hdisk ▸ hsettled), hdisk]
    decide
  refine ⟨?_, ?_, hstale _ _ (n := .file (.text "TN:\n") 0o644) rfl,
    hstale _ _ (n := .file (.text "TN:\n") 0o644) rfl⟩
  · rw [issuedBy_calculate _ _ _ rfl]
    exact mem_commands_iff.2 (.summary hcaptured)
  · have hstated : (answeredPercent? (.ok ⟨0, "  lines......: 85.5%\n", ""⟩)).isSome = true := by
      decide
    obtain ⟨percent, hpercent⟩ := Option.isSome_iff_exists.1 hstated
    have hsummed : summedPercent? idleTools plainConfig staleProject = some percent := by
      rw [summedPercent?, if_pos hcaptured]
      exact hpercent
    rw [run_calculate_of_located _ rfl, percent_measure?, hsummed]

end StatusBadges.Coverage
