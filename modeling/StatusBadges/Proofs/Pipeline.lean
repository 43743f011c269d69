import StatusBadges.Pipeline
import StatusBadges.Proofs.Coverage.Calculation
import StatusBadges.Proofs.Json.RoundTrip
import StatusBadges.Proofs.Storage.Writing
import StatusBadges.Proofs.Text

/-!
# What a run delivers

Looking at the project can do anything to the files, since it issues commands. What comes behind it
is known exactly: a run asks for the time (`tellsTime_iff`), saves the record, for which it may make
directories (`saves_of_save`), and updates the README if there is one (`updates_of_updateReadme`).
Files grow on the way, so that the record is still at its path in the end.
-/

namespace StatusBadges.Pipeline

open Session

/-! ## Looking at the project -/

section Looking

variable (tools : Toolbox) (c : Config)

theorem settled_check {s : Session} (hs : s.disk.Settled) :
    ((Build.check tools c.root).run s).2.disk.Settled := by
  unfold Build.check
  rw [run_ask_bind]
  cases Build.findEntry? s.disk c.root with
  | none => exact hs
  | some entry =>
    simp only
    rw [run_issue_bind]
    cases s.answer tools (Build.checkCommand c.root entry) <;> exact settled_after hs _

theorem settled_testRun {s : Session} (hs : s.disk.Settled) :
    ((TestSuite.run tools c.root c.testsPath).run s).2.disk.Settled := by
  unfold TestSuite.run
  rw [run_issue_bind]
  cases s.answer tools (TestSuite.command c.root) with
  | error failure => exact settled_after hs _
  | ok output =>
    simp only
    split <;> exact settled_after hs _

theorem settled_calculate {s : Session} (hs : s.disk.Settled) :
    ((Coverage.calculate tools c).run s).2.disk.Settled := by
  by_cases hl : (tools.locate s.disk "lcov").isSome = true
  · rw [Coverage.run_calculate_of_located c hl]
    obtain ⟨events, last, hcourse, hlast⟩ := Coverage.course_measure? tools c s
    obtain ⟨sweep, hsweep, -⟩ := Coverage.exists_sweep tools c last
    rw [hlast]
    exact hsweep.settled (hcourse.history.settled hs)
  · rw [Coverage.run_calculate_of_not_located c hl]
    exact hs

theorem settled_generate {s : Session} (hs : s.disk.Settled) :
    ((generate tools c).run s).2.disk.Settled :=
  settled_calculate tools c (settled_testRun tools c (settled_check tools c hs))

end Looking

/-! ## The time -/

/-- The time of a run that asks for it in a session: what `date -Iseconds` writes there, without the
white space around it, if the command ends well and writes more than white space, and else the local
time. -/
inductive TellsTime (tools : Toolbox) (s : Session) : String → Prop
  | asked {output : Output} {time : String}
      (h : s.answer tools ⟨"date", ["-Iseconds"], none⟩ = .ok output) (hcode : output.code = 0)
      (htold : Text.Trimmed output.stdout.toList time.toList) (hne : time ≠ "") :
      TellsTime tools s time
  | unasked (h : ∀ output, s.answer tools ⟨"date", ["-Iseconds"], none⟩ = .ok output →
      output.code = 0 → ∀ c ∈ output.stdout.toList, Text.isBlank c = true) :
      TellsTime tools s tools.localTime

theorem timestamp_after (tools : Toolbox) (s : Session) :
    ((timestamp tools).run s).2 = s.after tools timeCommand := by
  unfold timestamp
  rw [run_issue_bind]
  cases s.answer tools timeCommand <;> rfl

section Time

variable {tools : Toolbox} {s : Session}

theorem timestamp_of_ok {output : Output} (h : s.answer tools timeCommand = .ok output) :
    ((timestamp tools).run s).1 =
      if output.code = 0 ∧ Text.trim output.stdout.toList ≠ [] then
        String.ofList (Text.trim output.stdout.toList)
      else tools.localTime := by
  have htold : (output.success && !(Text.trim output.stdout.toList).isEmpty) = true ↔
      output.code = 0 ∧ Text.trim output.stdout.toList ≠ [] := by
    simp [Output.success]
  unfold timestamp
  rw [run_issue_bind, h, ← if_congr htold rfl rfl]
  rfl

theorem timestamp_of_error {failure : Failure} (h : s.answer tools timeCommand = .error failure) :
    ((timestamp tools).run s).1 = tools.localTime := by
  unfold timestamp
  rw [run_issue_bind, h]
  rfl

theorem tellsTime_timestamp (tools : Toolbox) (s : Session) :
    TellsTime tools s ((timestamp tools).run s).1 := by
  cases hanswer : s.answer tools timeCommand with
  | error failure =>
    rw [timestamp_of_error hanswer]
    refine .unasked fun output h => ?_
    cases h.symm.trans hanswer
  | ok output =>
    rw [timestamp_of_ok hanswer]
    split
    · next htold =>
      refine .asked hanswer htold.1 ?_ ?_
      · rw [String.toList_ofList]
        exact Text.trimmed_trim _
      · exact fun hempty => htold.2 (String.ofList_eq_empty_iff.1 hempty)
    · next htold =>
      refine .unasked fun output' h hcode => ?_
      obtain rfl := Except.ok.inj (hanswer.symm.trans h)
      by_contra hblank
      exact htold ⟨hcode, fun hnil => hblank (Text.trim_eq_nil_iff.1 hnil)⟩

/-- **The time that a run asks for is the one it records**, and there is no other. -/
theorem tellsTime_iff {time : String} :
    TellsTime tools s time ↔ time = ((timestamp tools).run s).1 := by
  constructor
  · intro h
    cases h with
    | asked h hcode htold hne =>
      have htrim := htold.eq_trim
      have hnil : Text.trim _ ≠ [] := htrim ▸ fun hnil => hne (String.toList_eq_nil_iff.1 hnil)
      rw [timestamp_of_ok h, if_pos ⟨hcode, hnil⟩, ← htrim, String.ofList_toList]
    | unasked h =>
      cases hanswer : s.answer tools timeCommand with
      | error failure => rw [timestamp_of_error hanswer]
      | ok output =>
        rw [timestamp_of_ok hanswer, if_neg]
        rintro ⟨hcode, hnil⟩
        exact hnil (Text.trim_eq_nil_iff.2 (h output hanswer hcode))
  · rintro rfl
    exact tellsTime_timestamp tools s

end Time

/-! ## Saving the record -/

/-- The paths of the directories that saving at a path can make. -/
def above (p : Path) : List Path := (p.parent?.map Path.ancestors).getD []

/-- **Saving makes directories, and then it is refused or writes the record.** -/
theorem builds_save {d : Disk} (hs : d.Settled) (p : Path) (r : BadgeRecord) :
    ∃ made, Disk.Builds (above p) d made ∧
      ((∃ failure, save p r d = (.error failure, made)) ∨
        ∃ d', save p r d = (.ok (), d') ∧ made.writeText p r.encode = .ok d') := by
  have hwrite (made : Disk) (hb : Disk.Builds (above p) d made)
      (hno : ∀ cause, made.writeText p r.encode = .error cause →
        save p r d = (.error (.storage p cause), made))
      (hyes : ∀ d', made.writeText p r.encode = .ok d' → save p r d = (.ok (), d')) :
      ∃ made, Disk.Builds (above p) d made ∧
        ((∃ failure, save p r d = (.error failure, made)) ∨
          ∃ d', save p r d = (.ok (), d') ∧ made.writeText p r.encode = .ok d') := by
    refine ⟨made, hb, ?_⟩
    cases hw : made.writeText p r.encode with
    | error cause => exact Or.inl ⟨_, hno cause hw⟩
    | ok d' => exact Or.inr ⟨d', hyes d' hw, rfl⟩
  cases hp : p.parent? with
  | none =>
    refine hwrite d (.refl _ d) (fun cause hw => ?_) fun d' hw => ?_
    · simp only [save, hp, hw]
    · simp only [save, hp, hw]
  | some directory =>
    by_cases hempty : directory.chars = []
    · refine hwrite d (.refl _ d) (fun cause hw => ?_) fun d' hw => ?_
      · simp only [save, hp, if_pos hempty, hw]
      · simp only [save, hp, if_pos hempty, hw]
    · have hb := Disk.builds_makeDirectories hs directory
      have habove : above p = directory.ancestors := by simp [above, hp]
      rw [← habove] at hb
      cases hm : d.makeDirectories directory with
      | mk result made =>
        rw [hm] at hb
        cases result with
        | error cause =>
          refine ⟨made, hb, Or.inl ⟨.storage directory cause, ?_⟩⟩
          simp only [save, hp, if_neg hempty, hm]
        | ok _ =>
          refine hwrite made hb (fun cause hw => ?_) fun d' hw => ?_
          · simp only [save, hp, if_neg hempty, hm, hw]
          · simp only [save, hp, if_neg hempty, hm, hw]

theorem saves_of_save {d d' : Disk} (hs : d.Settled) {p : Path} {r : BadgeRecord}
    (h : save p r d = (.ok (), d')) :
    ∃ made l, Disk.Builds (above p) d made ∧ made.resolve p = .ok l ∧ d'.resolve p = .ok l ∧
      Disk.Wrote r.encode l made d' := by
  obtain ⟨made, hb, ⟨failure, hsave⟩ | ⟨saved, hsave, hw⟩⟩ := builds_save hs p r
  · rw [hsave] at h
    cases h
  · rw [hsave] at h
    cases h
    obtain ⟨l, hl, hl', hwrote⟩ := Disk.wrote_of_writeText (hb.settled hs) hw
    exact ⟨made, l, hb, hl, hl', hwrote⟩

/-! ## Updating the README -/

theorem updates_of_updateReadme {d d' : Disk} (hs : d.Settled) {p : Path} {badges : BadgeSet}
    {updated : Bool} (h : updateReadme p badges d = (.ok updated, d')) :
    updated = d.isFile p ∧
      if updated then ∃ content l, d.readText p = .ok content ∧ d.resolve p = .ok l ∧
        d'.resolve p = .ok l ∧ Disk.Wrote (Readme.update content badges) l d d'
      else d' = d := by
  unfold updateReadme at h
  by_cases hf : d.isFile p = true
  · rw [if_pos hf] at h
    cases hr : d.readText p with
    | error cause => rw [hr] at h; cases h
    | ok content =>
      rw [hr] at h
      simp only at h
      cases hw : d.writeText p (Readme.update content badges) with
      | error cause => rw [hw] at h; cases h
      | ok written =>
        rw [hw] at h
        cases h
        obtain ⟨l, hl, hl', hwrote⟩ := Disk.wrote_of_writeText hs hw
        exact ⟨hf.symm, content, l, rfl, hl, hl', hwrote⟩
  · rw [if_neg hf] at h
    cases h
    exact ⟨by simpa using hf, rfl⟩

/-! ## A whole run -/

/-- The session in which a run saves its record. -/
def beforeSaving (tools : Toolbox) (c : Config) (s : Session) : Session :=
  ((generate tools c).run s).2.after tools timeCommand

/-- The record that a run saves. Its time is the one that is told behind the look at the project
(`tellsTime_record`). -/
def record (tools : Toolbox) (c : Config) (s : Session) : BadgeRecord where
  generatedAt := ((timestamp tools).run ((generate tools c).run s).2).1
  badges := ((generate tools c).run s).1.badges

theorem tellsTime_record (tools : Toolbox) (c : Config) (s : Session) :
    TellsTime tools ((generate tools c).run s).2 (record tools c s).generatedAt :=
  tellsTime_timestamp tools _

/-- The files after a run saved its record. -/
def saved (tools : Toolbox) (c : Config) (s : Session) : Disk :=
  (save c.dataPath (record tools c s) (beforeSaving tools c s).disk).2

/-- The parts of a run that ends well. -/
theorem run_eq_ok {tools : Toolbox} {c : Config} {s : Session} {summary : Summary}
    (h : ((run tools c).run s).1 = .ok summary) :
    save c.dataPath (record tools c s) (beforeSaving tools c s).disk = (.ok (), saved tools c s) ∧
      updateReadme c.readmePath summary.badges (saved tools c s) =
        (.ok summary.readmeUpdated, ((run tools c).run s).2.disk) ∧
      summary = { ((generate tools c).run s).1 with readmeUpdated := summary.readmeUpdated } ∧
      ((run tools c).run s).2.issued = (beforeSaving tools c s).issued := by
  unfold saved record beforeSaving
  unfold run at h ⊢
  rw [run_bind, run_bind, timestamp_after, run_change_bind] at h ⊢
  cases hsave : save c.dataPath ⟨((timestamp tools).run ((generate tools c).run s).2).1,
      ((generate tools c).run s).1.badges⟩
      (((generate tools c).run s).2.after tools timeCommand).disk with
  | mk result d =>
    rw [hsave] at h
    cases result with
    | error failure => cases h
    | ok _ =>
      simp only at h ⊢
      rw [run_change_bind] at h ⊢
      cases hupdate : updateReadme c.readmePath ((generate tools c).run s).1.badges d with
      | mk result d' =>
        rw [hupdate] at h
        cases result with
        | error failure => cases h
        | ok updated =>
          cases h
          exact ⟨trivial, hupdate, rfl, rfl⟩

theorem run_of_ok {tools : Toolbox} {c : Config} {s : Session} {d d' : Disk} {updated : Bool}
    (hsave : save c.dataPath (record tools c s) (beforeSaving tools c s).disk = (.ok (), d))
    (hupdate : updateReadme c.readmePath ((generate tools c).run s).1.badges d =
      (.ok updated, d')) :
    ((run tools c).run s).1 =
      .ok { ((generate tools c).run s).1 with readmeUpdated := updated } := by
  unfold record beforeSaving at hsave
  unfold run
  rw [run_bind, run_bind, timestamp_after, run_change_bind, hsave]
  simp only
  rw [run_change_bind, hupdate]
  rfl

/-- What a run that ends well has done. -/
structure Delivered (tools : Toolbox) (c : Config) (s : Session) (summary : Summary)
    (final : Session) : Prop where
  /-- The badges are those of what was found out. -/
  badges : summary.badges = .of summary.version summary.build summary.tests summary.coverage
  /-- The data file holds the badges, and the time as it is told behind the look at the project,
  whatever it held before. -/
  data : ∃ text mode time, final.disk.node? c.dataPath = some (.file (.text text) mode) ∧
    BadgeRecord.decode? text = some ⟨time, summary.badges⟩ ∧
    TellsTime tools ((generate tools c).run s).2 time
  /-- The README counts as updated exactly when there is one after the record was saved. -/
  readme : summary.readmeUpdated = (saved tools c s).isFile c.readmePath
  /-- A README is rewritten from its text before, and none is made. -/
  rewritten : if summary.readmeUpdated then
      ∃ content mode, (saved tools c s).readText c.readmePath = .ok content ∧
        final.disk.node? c.readmePath =
          some (.file (.text (Readme.update content summary.badges)) mode)
    else final.disk = saved tools c s
  /-- Behind the look at the project only the time is asked for. -/
  commands : final.issued =
    ((generate tools c).run s).2.issued ++ [⟨"date", ["-Iseconds"], none⟩]
  /-- The run itself changes the data file, directories missing above it, and the README. -/
  frame : ∀ l, final.disk.tree.node? l ≠ (beforeSaving tools c s).disk.tree.node? l →
    final.disk.resolve c.dataPath = .ok l ∨
    ((beforeSaving tools c s).disk.tree.node? l = none ∧ final.disk.tree.node? l = some .directory ∧
      ∃ p ∈ above c.dataPath, final.disk.resolve p = .ok l) ∨
    final.disk.resolve c.readmePath = .ok l

/-- **A run that ends well delivers its badges** in the data file and the README, when these are not
the same file. -/
theorem delivered_of_run {tools : Toolbox} {c : Config} {s : Session} {summary : Summary}
    (hs : s.disk.Settled)
    (hne : ∀ l, (saved tools c s).resolve c.dataPath = .ok l →
      (saved tools c s).resolve c.readmePath ≠ .ok l)
    (h : ((run tools c).run s).1 = .ok summary) :
    Delivered tools c s summary ((run tools c).run s).2 := by
  obtain ⟨hsave, hupdate, hsummary, hissued⟩ := run_eq_ok h
  have hbefore : (beforeSaving tools c s).disk.Settled :=
    settled_after (settled_generate tools c hs) timeCommand
  obtain ⟨made, l, hbuilds, -, hl, hwrote⟩ := saves_of_save hbefore hsave
  obtain ⟨mode, hdata, -⟩ := hwrote.node
  have hsettled : (saved tools c s).Settled := hwrote.settled (hbuilds.settled hbefore)
  obtain ⟨hreadme, hrest⟩ := updates_of_updateReadme hsettled hupdate
  have hrecord : record tools c s = ⟨(record tools c s).generatedAt, summary.badges⟩ := by
    rw [hsummary]
    rfl
  have hdecode := BadgeRecord.decode?_encode (record tools c s)
  rw [hrecord] at hdecode
  have htime := tellsTime_record tools c s
  have hbadges : summary.badges = .of summary.version summary.build summary.tests
      summary.coverage := by
    rw [hsummary]
    rfl
  cases hupdated : summary.readmeUpdated with
  | false =>
    rw [hupdated] at hreadme hrest
    simp only [Bool.false_eq_true, if_false] at hrest
    refine ⟨hbadges, ⟨_, mode, _, ?_, hdecode, htime⟩, by rw [hupdated, hreadme], ?_, ?_, ?_⟩
    · rw [hrest, ← hrecord]
      exact Disk.node?_of_resolve hl hdata
    · rw [hupdated]
      exact hrest
    · rw [hissued]
      rfl
    · intro k hk
      rw [hrest] at hk ⊢
      by_cases e : k = l
      · exact Or.inl (e ▸ hl)
      · exact Or.inr (Or.inl (hbuilds.made_of_wrote hwrote e hk))
  | true =>
    rw [hupdated] at hreadme hrest
    simp only [if_true] at hrest
    obtain ⟨content, m, hread, hm, hm', hwrote'⟩ := hrest
    obtain ⟨mode', hnode', -⟩ := hwrote'.node
    have hlm : l ≠ m := fun e => hne l hl (e ▸ hm)
    refine ⟨hbadges, ⟨_, mode, _, ?_, hdecode, htime⟩, by rw [hupdated, hreadme], ?_, ?_, ?_⟩
    · rw [← hrecord]
      refine Disk.node?_of_resolve (hwrote'.resolve hl) ?_
      rw [hwrote'.others l hlm]
      exact hdata
    · rw [hupdated]
      exact ⟨content, mode', hread, Disk.node?_of_resolve hm' hnode'⟩
    · rw [hissued]
      rfl
    · intro k hk
      by_cases e : k = l
      · exact Or.inl (e ▸ hwrote'.resolve hl)
      by_cases e' : k = m
      · exact Or.inr (Or.inr (e' ▸ hm'))
      rw [hwrote'.others k e'] at hk ⊢
      obtain ⟨h0, h1, p, hp, hr⟩ := hbuilds.made_of_wrote hwrote e hk
      exact Or.inr (Or.inl ⟨h0, h1, p, hp, hwrote'.resolve hr⟩)

/-- A project with nothing but a README. -/
def bareProject : Session where
  disk :=
    { tree :=
        { entries :=
            [(["proj".toList], .directory),
              (["proj".toList, "README.md".toList],
                .file (.text "[![Tests](old)](#)\n") 0o644)]
          distinct := by decide
          rooted := by decide
          named := by decide }
      here := [] }
  issued := []

/-- Its configuration. -/
def bareConfig : Config := .standard none (.ofString "/proj")

/-- A machine without programs. -/
def noPrograms : Toolbox where
  locate := fun _ _ => none
  run := fun _ _ _ => (.error .notFound, [])
  localTime := "2024-05-01T10:00:00+00:00"

/-- A machine on which nothing but the clock can be asked. -/
def onlyClock : Toolbox where
  locate := fun _ _ => none
  run := fun _ _ command =>
    if command.program = "date" then (.ok ⟨0, "2025-01-02T03:04:05+00:00\n", ""⟩, [])
    else (.error .notFound, [])
  localTime := "2024-05-01T10:00:00+00:00"

/-- Where no command changes files and there is no coverage tool, looking at the project leaves the
files as they are. -/
theorem disk_beforeSaving_of_inert {tools : Toolbox} (hl : ∀ d, tools.locate d "lcov" = none)
    (hrun : ∀ issued d command, (tools.run issued d command).2 = []) (c : Config) (s : Session) :
    (beforeSaving tools c s).disk = s.disk := by
  have hafter (s : Session) (command : Command) : (s.after tools command).disk = s.disk := by
    change s.disk.through (tools.run s.issued s.disk command).2 = s.disk
    rw [hrun]
    rfl
  have hcheck : ((Build.check tools c.root).run s).2.disk = s.disk := by
    unfold Build.check
    rw [run_ask_bind]
    cases Build.findEntry? s.disk c.root with
    | none => rfl
    | some entry =>
      simp only
      rw [run_issue_bind, ← hafter s (Build.checkCommand c.root entry)]
      cases s.answer tools (Build.checkCommand c.root entry) <;> rfl
  have htests (s : Session) :
      ((TestSuite.run tools c.root c.testsPath).run s).2.disk = s.disk := by
    unfold TestSuite.run
    rw [run_issue_bind, ← hafter s (TestSuite.command c.root)]
    cases s.answer tools (TestSuite.command c.root) with
    | error failure => rfl
    | ok output =>
      simp only
      split <;> rfl
  have hgenerate : ((generate tools c).run s).2 =
      ((TestSuite.run tools c.root c.testsPath).run ((Build.check tools c.root).run s).2).2 := by
    have hnone (s : Session) : ((Coverage.calculate tools c).run s).2 = s := by
      rw [Coverage.run_calculate_of_not_located c (by simp [hl])]
    exact hnone _
  rw [beforeSaving, hafter, hgenerate, htests, hcheck]

theorem disk_beforeSaving_noPrograms (c : Config) (s : Session) :
    (beforeSaving noPrograms c s).disk = s.disk :=
  disk_beforeSaving_of_inert (fun _ => rfl) (fun _ _ _ => rfl) c s

theorem disk_beforeSaving_onlyClock (c : Config) (s : Session) :
    (beforeSaving onlyClock c s).disk = s.disk := by
  refine disk_beforeSaving_of_inert (fun _ => rfl) (fun issued d command => ?_) c s
  unfold onlyClock
  simp only
  split <;> rfl

/-- The bare project gets its badges with the time that the clock tells, and its README is
updated. -/
theorem delivered_bareProject :
    ∃ summary, summary.readmeUpdated = true ∧
      Delivered onlyClock bareConfig bareProject summary
        ((run onlyClock bareConfig).run bareProject).2 ∧
      ∃ text mode, ((run onlyClock bareConfig).run bareProject).2.disk.node? bareConfig.dataPath =
          some (.file (.text text) mode) ∧
        BadgeRecord.decode? text = some ⟨"2025-01-02T03:04:05+00:00", summary.badges⟩ := by
  have hfiles (r : BadgeRecord) (badges : BadgeSet) : ∃ d d',
      save bareConfig.dataPath r bareProject.disk = (.ok (), d) ∧
      d.resolve bareConfig.dataPath =
        .ok ["proj".toList, "badges".toList, "data.json".toList] ∧
      d.resolve bareConfig.readmePath = .ok ["proj".toList, "README.md".toList] ∧
      updateReadme bareConfig.readmePath badges d = (.ok true, d') :=
    ⟨_, _, rfl, rfl, rfl, rfl⟩
  obtain ⟨d, d', hsave, hdata, hreadme, hupdate⟩ := hfiles
    (record onlyClock bareConfig bareProject)
    ((generate onlyClock bareConfig).run bareProject).1.badges
  rw [← disk_beforeSaving_onlyClock bareConfig bareProject] at hsave
  have hsaved : saved onlyClock bareConfig bareProject = d := by rw [saved, hsave]
  have hapart : ∀ l, (saved onlyClock bareConfig bareProject).resolve bareConfig.dataPath = .ok l →
      (saved onlyClock bareConfig bareProject).resolve bareConfig.readmePath ≠ .ok l := by
    intro l hl
    rw [hsaved, hdata] at hl
    cases hl
    rw [hsaved, hreadme]
    simp
  have hdelivered :=
    delivered_of_run (Disk.settled_of_node? rfl) hapart (run_of_ok hsave hupdate)
  obtain ⟨text, mode, time, hnode, hdecode, htime⟩ := hdelivered.data
  have htold : time = "2025-01-02T03:04:05+00:00" := by
    rw [tellsTime_iff.1 htime, timestamp_of_ok rfl]
    decide
  exact ⟨_, rfl, hdelivered, text, mode, hnode, htold ▸ hdecode⟩

end StatusBadges.Pipeline
