import StatusBadges.Coverage.Measure
import StatusBadges.Proofs.Storage.Removal

/-!
# The course of a measurement

A measurement exercises the project, captures and sums up, and cleans up. `Chore` says once what can
happen on the way, apart from the commands that decide the result and from the removal of the
compiled tests, which comes last. `course_measure?` puts the whole course together.
-/

namespace StatusBadges.Coverage

open Session

/-! ## Chores -/

/-- What a measurement does besides capturing, summing up and removing the compiled tests. -/
inductive Chore (c : Config) : Event → Prop
  | counters {d : Disk} {t : Tree} (p : Path) (hp : p = c.root ∨ p = c.nimCachePath)
      (h : ∀ l, d.tree.Loses t l → d.WantedBelow p (fun n _ => isCounterName n) l) :
      Chore c (.change d t)
  | trace {d : Disk} {t : Tree} (name : String) (hn : name = traceFile ∨ name = sourceTraceFile)
      (h : ∀ l, d.tree.Loses t l → d.Entry (c.root.join (.ofString name)) l) :
      Chore c (.change d t)
  | report {d : Disk} {t : Tree} (h : ∀ l, d.tree.Loses t l → d.Inside c.htmlPath l) :
      Chore c (.change d t)
  | reset (s : Session) (p : Path) (hp : p = c.root ∨ p = c.nimCachePath) :
      Chore c (.call s (resetCommand c.root p))
  | compile (s : Session) (d : Disk) (test : Path) (ht : test ∈ Sources.testFiles d c.testsPath) :
      Chore c (.call s (compileCommand c.root test))
  | test (s : Session) (d : Disk) (test : Path) (ht : test ∈ Sources.testFiles d c.testsPath) :
      Chore c (.call s (testCommand c.root test.withoutExtension))
  | extract (s : Session) : Chore c (.call s (extractCommand c.root))
  | genhtml (s : Session) (projectName : String) :
      Chore c (.call s (reportCommand c.root c.htmlPath projectName))

/-- The calls and the removals of a measurement are allowed, those of the report aside. -/
structure Permits (c : Config) (allowed : Event → Prop) : Prop where
  counters : ∀ p, p = c.root ∨ p = c.nimCachePath → ∀ d,
    Disk.Edits (fun d t => allowed (.change d t)) d (removeCounters p d).2
  traces : ∀ name, name = traceFile ∨ name = sourceTraceFile → ∀ d,
    Disk.Edits (fun d t => allowed (.change d t)) d
      (removeIfPossible (c.root.join (.ofString name)) d).2
  calls : ∀ s command, Chore c (.call s command) → allowed (.call s command)

theorem Permits.mono {c : Config} {allowed more : Event → Prop} (hm : ∀ e, allowed e → more e)
    (h : Permits c allowed) : Permits c more where
  counters p hp d := (h.counters p hp d).mono fun _ _ => hm _
  traces name hn d := (h.traces name hn d).mono fun _ _ => hm _
  calls s command hc := hm _ (h.calls s command hc)

theorem permits_chore (c : Config) : Permits c (Chore c) where
  counters p hp d := (Disk.edits_removeFilesBelow d p _).mono fun _ _ h => .counters p hp h
  traces name hn d := by
    unfold removeIfPossible
    cases h : d.removeFile (c.root.join (.ofString name)) with
    | error cause => exact .refl d
    | ok d' =>
      obtain ⟨t, rfl, ht⟩ := Disk.entry_of_removeFile h
      exact .single (.trace name hn ht)
  calls _ _ h := h

theorem edits_clearReport (c : Config) (d : Disk) :
    Disk.Edits (fun d t => Chore c (.change d t)) d (clearReport c.htmlPath d).2 := by
  unfold clearReport
  split
  · exact (Disk.edits_removeAll d c.htmlPath).mono fun d' t h => .report h
  · exact .refl d

/-- Resets the counters, compiles the tests and runs them. -/
def exercise (tools : Toolbox) (c : Config) : Step Unit := do
  resetCounters tools c
  let tests ← Session.ask fun d => Sources.testFiles d c.testsPath
  compileTests tools c.root tests
  runTests tools c.root tests

section Steps

variable (tools : Toolbox) {c : Config} {allowed : Event → Prop} (h : Permits c allowed)
include h

theorem performs_removeCounters {p : Path} (hp : p = c.root ∨ p = c.nimCachePath) :
    Performs tools allowed (Session.change (removeCounters p)) :=
  performs_change (h.counters p hp)

theorem performs_compileTests {d : Disk} {tests : List Path}
    (ht : ∀ test ∈ tests, test ∈ Sources.testFiles d c.testsPath) :
    Performs tools allowed (compileTests tools c.root tests) := by
  induction tests with
  | nil => exact performs_pure _
  | cons test rest ih =>
    obtain ⟨hfirst, hrest⟩ := List.forall_mem_cons.1 ht
    refine (performs_issue fun s => ?_).bind fun _ => ih hrest
    exact h.calls s _ (.compile s d test hfirst)

theorem performs_runTests {d : Disk} {tests : List Path}
    (ht : ∀ test ∈ tests, test ∈ Sources.testFiles d c.testsPath) :
    Performs tools allowed (runTests tools c.root tests) := by
  induction tests with
  | nil => exact performs_pure _
  | cons test rest ih =>
    obtain ⟨hfirst, hrest⟩ := List.forall_mem_cons.1 ht
    refine (performs_ask _).bind fun there => ?_
    cases there with
    | false => exact ih hrest
    | true =>
      refine (performs_issue fun s => ?_).bind fun _ => ih hrest
      exact h.calls s _ (.test s d test hfirst)

/-- The chores of an exercise. The counters in the root are reset among them. -/
theorem history_exercise (s : Session) :
    ∃ events, History tools s events ((exercise tools c).run s).2 ∧ (∀ e ∈ events, allowed e) ∧
      ∃ s', .call s' (resetCommand c.root c.root) ∈ events := by
  obtain ⟨first, h₁, hfirst⟩ := (performs_removeCounters tools h (.inl rfl)).bind
    (fun _ => performs_removeCounters tools h (.inr rfl)) s
  have hrest : Performs tools allowed (do
      let _ ← Session.issue tools (resetCommand c.root c.nimCachePath)
      let tests ← Session.ask fun d => Sources.testFiles d c.testsPath
      compileTests tools c.root tests
      runTests tools c.root tests) := by
    refine (performs_issue fun s => h.calls s _ (.reset s _ (.inr rfl))).bind fun _ => ?_
    apply Performs.ask_bind
    intro d
    refine (performs_compileTests tools h fun _ ht => ht).bind fun _ => ?_
    exact performs_runTests tools h fun _ ht => ht
  obtain ⟨rest, h₂, hmore⟩ := hrest (Session.after tools _ (resetCommand c.root c.root))
  refine ⟨first ++ .call _ (resetCommand c.root c.root) :: rest, h₁.append (.call _ h₂), ?_,
    _, List.mem_append_right _ List.mem_cons_self⟩
  intro e he
  rcases List.mem_append.1 he with he | he
  · exact hfirst e he
  · rcases List.mem_cons.1 he with rfl | he
    · exact h.calls _ _ (.reset _ _ (.inl rfl))
    · exact hmore e he

theorem performs_writeReport
    (hreport : ∀ d, Disk.Edits (fun d t => allowed (.change d t)) d (clearReport c.htmlPath d).2) :
    Performs tools allowed (writeReport tools c) := by
  refine (performs_change hreport).bind fun _ => (performs_ask _).bind fun name => ?_
  exact (performs_issue fun s => h.calls s _ (.genhtml s name)).bind fun _ => performs_pure _

theorem performs_removeTraces : Performs tools allowed (removeTraces c.root) :=
  (performs_change (h.traces traceFile (.inl rfl))).bind fun _ =>
    (performs_change (h.traces sourceTraceFile (.inr rfl))).bind fun _ => performs_pure _

end Steps

/-! ## Capturing -/

/-- Whether the counters were captured: the command ended well and the trace file is there. -/
def Captured (tools : Toolbox) (c : Config) (s : Session) : Prop :=
  succeeded (s.answer tools (captureCommand c.root c.nimCachePath)) = true ∧
    (s.after tools (captureCommand c.root c.nimCachePath)).disk.isFile
      (c.root.join (.ofString traceFile)) = true

/-- The percentage in what the summary command answers. -/
def answeredPercent? : Except Failure Output → Option Binary64
  | .ok output => if output.success then summaryPercent? output.combined else none
  | .error _ => none

/-- Capturing from one session to another, with its events and its result. -/
inductive Capturing (tools : Toolbox) (c : Config) (s : Session) :
    List Event → Session → Option Binary64 → Prop
  | failed (h : ¬ Captured tools c s) :
      Capturing tools c s [.call s (captureCommand c.root c.nimCachePath)]
        (s.after tools (captureCommand c.root c.nimCachePath)) none
  | summed {s₁ s₂ : Session} (h : Captured tools c s)
      (h₁ : s₁ = s.after tools (captureCommand c.root c.nimCachePath))
      (h₂ : s₂ = s₁.after tools (extractCommand c.root)) :
      Capturing tools c s
        [.call s (captureCommand c.root c.nimCachePath), .call s₁ (extractCommand c.root),
          .call s₂ (summaryCommand c.root)]
        (s₂.after tools (summaryCommand c.root))
        (answeredPercent? (s₂.answer tools (summaryCommand c.root)))

theorem Capturing.history {tools : Toolbox} {c : Config} {s last : Session} {events : List Event}
    {percent : Option Binary64} (h : Capturing tools c s events last percent) :
    History tools s events last := by
  cases h with
  | failed h => exact .call _ (.nil _)
  | summed h h₁ h₂ =>
    subst h₁ h₂
    exact .call _ (.call _ (.call _ (.nil _)))

theorem Capturing.call {tools : Toolbox} {c : Config} {s last : Session} {events : List Event}
    {percent : Option Binary64} (h : Capturing tools c s events last percent) {e : Event}
    (he : e ∈ events) : ∃ s' command, e = .call s' command := by
  cases h with
  | failed h => exact ⟨_, _, List.mem_singleton.1 he⟩
  | summed h h₁ h₂ =>
    simp only [List.mem_cons, List.not_mem_nil, or_false] at he
    rcases he with rfl | rfl | rfl <;> exact ⟨_, _, rfl⟩

theorem capturing_captureAndSummarize (tools : Toolbox) (c : Config) (s : Session) :
    ∃ events, Capturing tools c s events ((captureAndSummarize tools c).run s).2
      ((captureAndSummarize tools c).run s).1 := by
  unfold captureAndSummarize
  rw [run_issue_bind, run_ask_bind]
  by_cases h : Captured tools c s
  · rw [if_pos (by rw [h.1, h.2]; rfl), run_issue_bind, run_issue_bind]
    have hc := Capturing.summed h rfl rfl
    cases ha : ((s.after tools (captureCommand c.root c.nimCachePath)).after tools
        (extractCommand c.root)).answer tools (summaryCommand c.root) with
    | error cause => rw [ha] at hc; exact ⟨_, hc⟩
    | ok output => rw [ha] at hc; exact ⟨_, hc⟩
  · rw [if_neg (by rw [Bool.and_eq_true]; exact h)]
    exact ⟨_, .failed h⟩

/-! ## The whole course -/

/-- Writes the report that is due and removes the trace files. -/
def wrapUp (tools : Toolbox) (c : Config) (percent : Option Binary64) : Step Unit := do
  if percent.isSome && c.coverageReport then writeReport tools c
  let _ ← removeTraces c.root

theorem performs_wrapUp (tools : Toolbox) {c : Config} {allowed : Event → Prop}
    (h : Permits c allowed) {percent : Option Binary64}
    (hreport : (percent.isSome && c.coverageReport) = true → ∀ d,
      Disk.Edits (fun d t => allowed (.change d t)) d (clearReport c.htmlPath d).2) :
    Performs tools allowed (wrapUp tools c percent) := by
  have hlast : Performs tools allowed (do let _ ← removeTraces c.root : Step Unit) :=
    (performs_removeTraces tools h).bind fun _ => performs_pure _
  unfold wrapUp
  split
  · next hdue => exact (performs_writeReport tools h (hreport hdue)).bind fun _ => hlast
  · exact hlast

theorem measure?_eq (tools : Toolbox) (c : Config) :
    measure? tools c = (do
      exercise tools c
      let percent ← captureAndSummarize tools c
      wrapUp tools c percent
      let _ ← Session.change (removeCompiledTests c.testsPath)
      return percent) := by
  have hif (b : Prop) [Decidable b] (x y : Step Unit) (k : Unit → Step (Option Binary64)) :
      (if b then x else y) >>= k = if b then x >>= k else y >>= k := by
    split <;> rfl
  simp only [measure?, exercise, wrapUp, hif, bind_assoc, pure_bind]

/-- The course of a measurement with its result: chores, the reset of the counters in the root among
them, then capturing, and chores again. -/
def Course (tools : Toolbox) (c : Config) (s : Session) (events : List Event) (last : Session)
    (percent : Option Binary64) : Prop :=
  ∃ before s₁ captured s₂ behind, events = before ++ captured ++ behind ∧
    History tools s before s₁ ∧ Capturing tools c s₁ captured s₂ percent ∧
    History tools s₂ behind last ∧ (∀ e ∈ before ++ behind, Chore c e) ∧
    ∃ s', .call s' (resetCommand c.root c.root) ∈ before

theorem Course.history {tools : Toolbox} {c : Config} {s last : Session} {events : List Event}
    {percent : Option Binary64} (h : Course tools c s events last percent) :
    History tools s events last := by
  obtain ⟨before, s₁, captured, s₂, behind, rfl, hb, hc, hh, -⟩ := h
  exact (hb.append hc.history).append hh

theorem exists_sweep (tools : Toolbox) (c : Config) (s : Session) :
    ∃ sweep, History tools s sweep
        { s with disk := (removeCompiledTests c.testsPath s.disk).2 } ∧
      ∀ e ∈ sweep, ∃ d t, e = .change d t := by
  obtain ⟨sweep, hh, hchanges⟩ := History.of_edits tools
    (Disk.edits_removeFilesBelow s.disk c.testsPath isCompiledTest) s.issued
  refine ⟨sweep, hh, ?_⟩
  intro e he
  obtain ⟨d, t, hd, -⟩ := hchanges e he
  exact ⟨d, t, hd⟩

/-- **A measurement takes its course**, and the compiled tests are removed at the end of it. -/
theorem course_measure? (tools : Toolbox) (c : Config) (s : Session) :
    ∃ events last, Course tools c s events last ((measure? tools c).run s).1 ∧
      ((measure? tools c).run s).2 =
        { last with disk := (removeCompiledTests c.testsPath last.disk).2 } := by
  obtain ⟨before, hb, hbefore, hreset⟩ := history_exercise tools (permits_chore c) s
  obtain ⟨captured, hc⟩ := capturing_captureAndSummarize tools c ((exercise tools c).run s).2
  obtain ⟨behind, hh, hbehind⟩ := performs_wrapUp tools (permits_chore c)
    (fun _ => edits_clearReport c)
    ((captureAndSummarize tools c).run ((exercise tools c).run s).2).2
  rw [measure?_eq]
  refine ⟨_, _, ⟨before, _, captured, _, behind, rfl, hb, hc, hh, ?_, hreset⟩, rfl⟩
  intro e he
  rcases List.mem_append.1 he with h | h
  · exact hbefore e h
  · exact hbehind e h

/-! ## Measuring and cleaning up -/

/-- Measures, and leaves the cleaning up. -/
def measureOnly (tools : Toolbox) (c : Config) : Step (Option Binary64) := do
  exercise tools c
  let percent ← captureAndSummarize tools c
  if percent.isSome && c.coverageReport then writeReport tools c
  return percent

/-- Removes the trace files and then the compiled tests. -/
def cleanUp (c : Config) : Step Unit := do
  let _ ← removeTraces c.root
  let _ ← Session.change (removeCompiledTests c.testsPath)

/-- A disk after a clean-up: the trace files were removed, and then the compiled tests. -/
def cleaned (c : Config) (d : Disk) : Disk :=
  (removeCompiledTests c.testsPath
    (removeIfPossible (c.root.join (.ofString sourceTraceFile))
      (removeIfPossible (c.root.join (.ofString traceFile)) d).2).2).2

theorem measure?_eq_measureOnly (tools : Toolbox) (c : Config) :
    measure? tools c = (do
      let percent ← measureOnly tools c
      cleanUp c
      return percent) := by
  have hif (b : Prop) [Decidable b] (x y : Step (Option Binary64))
      (k : Option Binary64 → Step (Option Binary64)) :
      (if b then x else y) >>= k = if b then x >>= k else y >>= k := by
    split <;> rfl
  simp only [measure?, exercise, measureOnly, cleanUp, hif, bind_assoc, pure_bind]

theorem percent_measureOnly (tools : Toolbox) (c : Config) (s : Session) :
    ((measureOnly tools c).run s).1 =
      ((captureAndSummarize tools c).run ((exercise tools c).run s).2).1 := by
  unfold measureOnly
  rw [run_bind, run_bind]
  split <;> rfl

section Events

variable (tools : Toolbox) {c : Config} {allowed : Event → Prop} (h : Permits c allowed)
include h

theorem history_measureOnly (hcalls : ∀ s command, allowed (.call s command)) (s : Session)
    (hreport : ((measureOnly tools c).run s).1.isSome = true → c.coverageReport = true → ∀ d,
      Disk.Edits (fun d t => allowed (.change d t)) d (clearReport c.htmlPath d).2) :
    ∃ events, History tools s events ((measureOnly tools c).run s).2 ∧ ∀ e ∈ events, allowed e := by
  rw [percent_measureOnly] at hreport
  unfold measureOnly
  rw [run_bind, run_bind]
  obtain ⟨captured, hc⟩ := capturing_captureAndSummarize tools c ((exercise tools c).run s).2
  generalize ((captureAndSummarize tools c).run ((exercise tools c).run s).2).1 = percent
    at hc hreport ⊢
  generalize ((captureAndSummarize tools c).run ((exercise tools c).run s).2).2 = s₂ at hc ⊢
  obtain ⟨before, hbefore, hallowed, -⟩ := history_exercise tools h s
  have hcaptured : ∀ e ∈ captured, allowed e := by
    intro e he
    obtain ⟨s', command, rfl⟩ := hc.call he
    exact hcalls s' command
  split
  · next hdue =>
    obtain ⟨hsome, hasked⟩ := Bool.and_eq_true_iff.1 hdue
    obtain ⟨behind, hbehind, hmore⟩ := performs_writeReport tools h (hreport hsome hasked) s₂
    exact ⟨before ++ captured ++ behind, (hbefore.append hc.history).append hbehind,
      List.forall_mem_append.2 ⟨List.forall_mem_append.2 ⟨hallowed, hcaptured⟩, hmore⟩⟩
  · exact ⟨before ++ captured, hbefore.append hc.history,
      List.forall_mem_append.2 ⟨hallowed, hcaptured⟩⟩

theorem performs_cleanUp (hsweep : ∀ d,
      Disk.Edits (fun d t => allowed (.change d t)) d (removeCompiledTests c.testsPath d).2) :
    Performs tools allowed (cleanUp c) :=
  (performs_removeTraces tools h).bind fun _ =>
    (performs_change hsweep).bind fun _ => performs_pure _

end Events

/-! ## With and without the coverage tool -/

theorem run_calculate_of_not_located {tools : Toolbox} (c : Config) {s : Session}
    (h : ¬ (tools.locate s.disk "lcov").isSome = true) :
    (calculate tools c).run s = (.ofCensus (Census.ofProject s.disk c), s) := by
  unfold calculate Session.available
  rw [run_ask_bind, if_neg h]
  rfl

theorem run_calculate_of_located {tools : Toolbox} (c : Config) {s : Session}
    (h : (tools.locate s.disk "lcov").isSome = true) :
    (calculate tools c).run s =
      (match ((measure? tools c).run s).1 with
        | some p => ⟨p, .measured⟩
        | none => .ofCensus (Census.ofProject ((measure? tools c).run s).2.disk c),
      ((measure? tools c).run s).2) := by
  unfold calculate Session.available
  rw [run_ask_bind, if_pos h, StateT.run_bind]
  cases hm : (measure? tools c).run s with
  | mk percent last =>
    cases percent <;> rfl

end StatusBadges.Coverage
