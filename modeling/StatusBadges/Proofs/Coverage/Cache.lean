import StatusBadges.Pipeline
import StatusBadges.Proofs.Coverage.Calculation

/-!
# The compiler cache in a run

A run looks at the compiler cache in two places, to reset the counters there and to capture them. So
two configurations that differ in nothing else run alike when their caches are in the same place
(`run_congr_cache`), and not when they are elsewhere: the commands of a run tell the cache whose
counters are captured (`captureCommand_mem_issued_iff`).
-/

namespace StatusBadges

open Session

namespace Coverage

/-! ## Measurements -/

/-- A command that captures counters captures those of the compiler cache. -/
def CapturesCache (c : Config) (command : Command) : Prop :=
  ∀ p, command = captureCommand c.root p → p = c.nimCachePath

theorem captureCommand_inj {root p q : Path} :
    captureCommand root p = captureCommand root q ↔ p = q := by
  cases p
  cases q
  simp [captureCommand, Command.new, Command.arguments, Command.pathArg, Command.arg,
    Command.inDirectory, Path.toString, ← String.toList_inj]

theorem Chore.ne_captureCommand {c : Config} {s : Session} {command : Command}
    (h : Chore c (.call s command)) (p : Path) : command ≠ captureCommand c.root p := by
  cases h <;> simp [captureCommand, resetCommand, compileCommand, testCommand, extractCommand,
    reportCommand, Command.new, Command.arg, Command.arguments, Command.pathArg,
    Command.inDirectory]

section Capturing

variable {tools : Toolbox} {c : Config} {s last : Session} {events : List Event}
  {percent : Option Binary64}

theorem Capturing.captures (h : Capturing tools c s events last percent) :
    .call s (captureCommand c.root c.nimCachePath) ∈ events := by
  cases h <;> simp

theorem Capturing.capturesCache (h : Capturing tools c s events last percent) {s' : Session}
    {command : Command} (he : .call s' command ∈ events) : CapturesCache c command := by
  rintro p rfl
  cases h with
  | failed => exact captureCommand_inj.1 (by simpa using he : _ ∧ _).2
  | @summed s₁ s₂ =>
    have hextract : captureCommand c.root p ≠ extractCommand c.root := by
      simp [captureCommand, extractCommand, Command.new, Command.arguments, Command.pathArg,
        Command.arg, Command.inDirectory]
    have hsummary : captureCommand c.root p ≠ summaryCommand c.root := by
      simp [captureCommand, summaryCommand, Command.new, Command.arguments, Command.pathArg,
        Command.arg, Command.inDirectory]
    simp only [List.mem_cons, Event.call.injEq, hextract, hsummary, and_false, List.not_mem_nil,
      or_false] at he
    exact captureCommand_inj.1 he.2

/-- The history of a measurement, with its capturing. -/
theorem history_capturing (tools : Toolbox) (c : Config) (s : Session) :
    ∃ events, History tools s events ((measure? tools c).run s).2 ∧
      (∀ s' command, .call s' command ∈ events → CapturesCache c command) ∧
      ∃ s', .call s' (captureCommand c.root c.nimCachePath) ∈ events := by
  obtain ⟨events, last, hcourse, hlast⟩ := course_measure? tools c s
  obtain ⟨sweep, hsweep, hchanges⟩ := exists_sweep tools c last
  have hh := hcourse.history.append hsweep
  obtain ⟨before, s₁, captured, s₂, behind, rfl, -, hc, -, hchores, -⟩ := hcourse
  refine ⟨before ++ captured ++ behind ++ sweep, by rwa [hlast], fun s' command he => ?_, s₁, ?_⟩
  · have hchore (h : Event.call s' command ∈ before ++ behind) : CapturesCache c command :=
      fun p hp => absurd hp ((hchores _ h).ne_captureCommand p)
    simp only [List.mem_append] at he hchore
    rcases he with ((h | h) | h) | h
    · exact hchore (.inl h)
    · exact hc.capturesCache h
    · exact hchore (.inr h)
    · obtain ⟨d, t, e⟩ := hchanges _ h
      cases e
  · simp [hc.captures]

end Capturing

theorem issues_calculate (tools : Toolbox) (c : Config) :
    Issues (CapturesCache c) (calculate tools c) := by
  intro s
  by_cases hl : (tools.locate s.disk "lcov").isSome = true
  · rw [run_calculate_of_located c hl]
    obtain ⟨events, hh, hcalls, -⟩ := history_capturing tools c s
    refine ⟨_, hh.issued_eq, fun command hc => ?_⟩
    obtain ⟨e, he, hcommand⟩ := List.mem_filterMap.1 hc
    cases e with
    | change d t => cases hcommand
    | call s' command' =>
      cases hcommand
      exact hcalls s' command he
  · rw [run_calculate_of_not_located c hl]
    exact issues_pure () s

theorem captureCommand_mem_issued {tools : Toolbox} (c : Config) {s : Session}
    (hl : (tools.locate s.disk "lcov").isSome = true) :
    captureCommand c.root c.nimCachePath ∈ ((calculate tools c).run s).2.issued := by
  rw [run_calculate_of_located c hl]
  obtain ⟨events, hh, -, s', hcall⟩ := history_capturing tools c s
  rw [hh.issued_eq]
  exact List.mem_append_right _ (List.mem_filterMap.2 ⟨_, hcall, rfl⟩)

/-- Where the compiler cache is written does not matter, only where it is. -/
theorem calculate_congr_cache (tools : Toolbox) {c : Config} {cache : Path}
    (h : c.resolve cache = c.nimCachePath) :
    calculate tools { c with nimCache := cache } = calculate tools c := by
  have hcache : Config.nimCachePath { c with nimCache := cache } = c.nimCachePath := h
  unfold calculate measure? resetCounters captureAndSummarize
  rw [hcache]
  rfl

end Coverage

namespace Pipeline

/-! ## Runs -/

variable (tools : Toolbox) (c : Config)

open Coverage (CapturesCache)

theorem issues_check : Issues (CapturesCache c) (Build.check tools c.root) := by
  refine (issues_ask _).bind fun entry? => ?_
  cases entry? with
  | none => exact issues_pure _
  | some entry =>
    refine (issues_issue tools ?_).bind fun answer => ?_
    · intro p hp
      simp [Build.checkCommand, Coverage.captureCommand, Command.new, Command.arg,
        Command.arguments, Command.pathArg, Command.inDirectory] at hp
    · cases answer <;> exact issues_pure _

theorem issues_testRun : Issues (CapturesCache c) (TestSuite.run tools c.root c.testsPath) := by
  refine (issues_issue tools ?_).bind fun answer => ?_
  · intro p hp
    simp [TestSuite.command, Coverage.captureCommand, Command.new, Command.arg,
      Command.arguments, Command.pathArg, Command.inDirectory] at hp
  · cases answer with
    | error failure => exact issues_pure _
    | ok output =>
      simp only
      split
      · exact (issues_ask _).bind fun blocks => issues_pure _
      · exact issues_pure _

/-- What comes behind the look at the project. -/
def keep (summary : Summary) : Step (Except Failure Summary) := do
  let time ← timestamp tools
  match ← Session.change (save c.dataPath ⟨time, summary.badges⟩) with
  | .error failure => return .error failure
  | .ok _ =>
    match ← Session.change (updateReadme c.readmePath summary.badges) with
    | .error failure => return .error failure
    | .ok updated => return .ok { summary with readmeUpdated := updated }

theorem run_eq : run tools c = generate tools c >>= keep tools c := rfl

theorem issues_keep (summary : Summary) : Issues (CapturesCache c) (keep tools c summary) := by
  have htime : Issues (CapturesCache c) (timestamp tools) := by
    refine (issues_issue tools ?_).bind fun answer => ?_
    · intro p hp
      simp [timeCommand, Coverage.captureCommand, Command.new, Command.arg,
        Command.arguments, Command.pathArg, Command.inDirectory] at hp
    · cases answer <;> exact issues_pure _
  refine htime.bind fun time => (issues_change _).bind fun saved => ?_
  cases saved with
  | error failure => exact issues_pure _
  | ok _ =>
    refine (issues_change _).bind fun updated => ?_
    cases updated <;> exact issues_pure _

theorem issues_run : Issues (CapturesCache c) (run tools c) := by
  rw [run_eq]
  refine Issues.bind ?_ fun summary => issues_keep tools c summary
  refine (issues_ask _).bind fun version => (issues_check tools c).bind fun build => ?_
  refine (issues_testRun tools c).bind fun tests => ?_
  exact (Coverage.issues_calculate tools c).bind fun coverage => issues_pure _

/-- **A run with the coverage tool captures the counters of the compiler cache, and no others.** -/
theorem captureCommand_mem_issued_iff {tools : Toolbox}
    (hl : ∀ d, (tools.locate d "lcov").isSome = true) {s : Session} (hs : s.issued = [])
    (p : Path) :
    Coverage.captureCommand c.root p ∈ ((run tools c).run s).2.issued ↔ p = c.nimCachePath := by
  constructor
  · intro h
    obtain ⟨more, hmore, hall⟩ := issues_run tools c s
    rw [hmore, hs, List.nil_append] at h
    exact hall _ h p rfl
  · rintro rfl
    rw [run_eq]
    apply Issues.mem_bind fun summary => issues_keep tools c summary
    unfold generate
    rw [run_ask_bind, run_bind, run_bind]
    refine Issues.mem_bind (fun coverage => (issues_pure _ : Issues (CapturesCache c) _)) ?_
    exact Coverage.captureCommand_mem_issued c (hl _)

theorem run_congr_cache {c : Config} {cache : Path} (h : c.resolve cache = c.nimCachePath) :
    run tools { c with nimCache := cache } = run tools c := by
  unfold run generate
  rw [Coverage.calculate_congr_cache tools h]
  rfl

end Pipeline

end StatusBadges
