import StatusBadges.Build
import StatusBadges.Command.Launch
import StatusBadges.Proofs.Coverage.Leftovers
import StatusBadges.Proofs.Storage.Joined

/-!
# Paths in commands

A command runs in the root of the project, and looks its paths up from there. The check of the build
names the entry file as it is seen from the root, which is right for every root. A measurement
writes its paths as they are seen from the working directory of the program. They mean the same from
the root exactly when the path of the root does (`RootStays`): always when it is absolute, but not
for a directory below the working directory.
-/

namespace StatusBadges

open Session Coverage

/-! ## What commands mention -/

/-- A command that is issued on a disk mentions a file or a directory of the project by a path, and
the program means the path that comes last, seen from its own working directory. By whatever path a
build check mentions its entry, the program means the entry file that it finds on the disk. -/
inductive Mentions (c : Config) (d : Disk) : Command → Path → Path → Prop
  | entry (written found : Path) (h : Build.findEntry? d c.root = some found) :
      Mentions c d (Build.checkCommand c.root written) written (c.root.join found)
  | reset (p : Path) (hp : p = c.root ∨ p = c.nimCachePath) :
      Mentions c d (resetCommand c.root p) p p
  | compile (d' : Disk) (test : Path) (ht : test ∈ Sources.testFiles d' c.testsPath) :
      Mentions c d (compileCommand c.root test) test test
  | test (d' : Disk) (test : Path) (ht : test ∈ Sources.testFiles d' c.testsPath) :
      Mentions c d (testCommand c.root test.withoutExtension) test.withoutExtension
        test.withoutExtension
  | capture : Mentions c d (captureCommand c.root c.nimCachePath) c.nimCachePath c.nimCachePath
  | report (projectName : String) :
      Mentions c d (reportCommand c.root c.htmlPath projectName) c.htmlPath c.htmlPath

/-- What a path denotes in the working directory of a command is what another path denotes in that
of the program. -/
def Denotes (d : Disk) (command : Command) (written meant : Path) : Prop :=
  ∀ d', Machine.enter d command = .ok d' →
    ∀ l, d'.tree.Leads d'.here written l ↔ d.tree.Leads d.here meant l

/-- The paths of an event that is a command denote what the program means. -/
def Event.Faithful (c : Config) : Event → Prop
  | .change _ _ => True
  | .call s command => ∀ written meant, Mentions c s.disk command written meant →
      Denotes s.disk command written meant

/-- The path of a directory leads from the directory to itself, unless it is absolute. -/
def RootStays (root : Path) (d : Disk) : Prop :=
  root.isAbsolute = true ∨ ∀ r, d.resolve root = .ok r → d.tree.found? r = some .directory →
    d.tree.Leads r root r

theorem enter_eq_ok {d d' : Disk} {command : Command} {root : Path}
    (hc : command.directory = some root) :
    Machine.enter d command = .ok d' ↔ ∃ r, d.resolve root = .ok r ∧
      d.tree.found? r = some .directory ∧ d' = { d with here := r } := by
  simp only [Machine.enter, hc, bind, Except.bind]
  cases hr : d.resolve root with
  | error cause => simp
  | ok r =>
    cases hf : d.tree.found? r with
    | none => simp [hf]
    | some n => cases n <;> simp [hf, eq_comm]

/-! ## Checking the build -/

/-- The entry file of a build check is named as it is seen from the root. -/
theorem denotes_entry (d : Disk) (root p : Path) :
    Denotes d (Build.checkCommand root p) p (root.join p) := by
  intro d' he l
  obtain ⟨r, hr, hdir, rfl⟩ := (enter_eq_ok rfl).1 he
  cases hp : p.isAbsolute with
  | true =>
    rw [Path.join_of_isAbsolute hp]
    exact Tree.leads_iff_of_isAbsolute hp _ _ _
  | false => exact (Tree.leads_join_iff hp (Disk.leads_of_resolve hr) hdir l).symm

/-! ## Measuring -/

/-- A path is absolute, or goes on from the root. -/
def GoesOn (root p : Path) : Prop :=
  p.isAbsolute = true ∨ root.isAbsolute = false ∧ p.isAbsolute = false ∧
    ∃ rest, Path.undotted p.steps = Path.undotted (root.parts ++ rest)

theorem goesOn_self (root : Path) : GoesOn root root := by
  cases h : root.isAbsolute with
  | true => exact Or.inl h
  | false => exact Or.inr ⟨h, h, _, rfl⟩

theorem goesOn_resolve (c : Config) (p : Path) : GoesOn c.root (c.resolve p) := by
  unfold Config.resolve
  split
  · next h => exact Or.inl h
  · next h =>
    have hp : p.isAbsolute = false := by simpa using h
    cases hroot : c.root.isAbsolute with
    | true => exact Or.inl (by rw [Path.isAbsolute_join hp, hroot])
    | false =>
      obtain ⟨rest, hsteps, -⟩ := Path.steps_join_undotted (p := c.root) hp
      exact Or.inr ⟨hroot, by rw [Path.isAbsolute_join hp, hroot], rest, by rw [hsteps]⟩

/-- A test file goes on from the root, and so does its program. -/
theorem goesOn_of_mem_testFiles {c : Config} {d : Disk} {test : Path}
    (h : test ∈ Sources.testFiles d c.testsPath) :
    GoesOn c.root test ∧ GoesOn c.root test.withoutExtension := by
  cases ht : test.isAbsolute with
  | true => exact ⟨Or.inl ht, Or.inl (Path.isAbsolute_withoutExtension ht)⟩
  | false =>
    obtain ⟨p, n, rfl, hn, hdir, hp, hparts⟩ := Disk.exists_child_of_mem_filesIn h ht
    obtain ⟨hne, -, -, hslash, -⟩ := Name.isPlain_iff.1 hn
    have hstem : '/' ∉ n.stem := fun hm => hslash (n.stem_prefix.subset hm)
    have htests : c.testsDir.isAbsolute = false ∧ c.testsPath = c.root.join c.testsDir := by
      unfold Config.testsPath Config.resolve at hdir ⊢
      split at hdir
      · next h' => rw [h'] at hdir; cases hdir
      · next h' => exact ⟨by simpa using h', if_neg h'⟩
    obtain ⟨htd, htp⟩ := htests
    rw [htp, Path.isAbsolute_join htd] at hdir
    rw [htp, Path.parts_join htd] at hparts
    have hgo (name : Name) (hs : '/' ∉ name) (hnil : name ≠ []) : GoesOn c.root (p.child name) := by
      refine Or.inr ⟨hdir, by rw [Path.isAbsolute_child hs, hp], c.testsDir.parts ++ [name], ?_⟩
      rw [Path.steps_child hs hnil, Path.undotted_append hparts, List.append_assoc]
    rw [Path.withoutExtension_child hn]
    exact ⟨hgo n hslash hne, hgo n.stem hstem (Name.stem_ne_nil hne)⟩

/-- **A path that goes on from the root leads from there where it led before**, if the path of the
root does. -/
theorem leads_iff_of_goesOn {t : Tree} {l r : Location} {root p : Path} (hp : GoesOn root p)
    (hr : t.Leads l root r) (hdir : t.found? r = some .directory)
    (hstay : root.isAbsolute = true ∨ t.Leads r root r) (k : Location) :
    t.Leads r p k ↔ t.Leads l p k := by
  rcases hp with habs | ⟨hroot, hp, rest, hsteps⟩
  · exact Tree.leads_iff_of_isAbsolute habs r l k
  · have hself : t.Leads r root r := hstay.resolve_left (by simp [hroot])
    have hthere := hself.reaches_parts hdir
    have hhere := hr.reaches_parts hdir
    simp only [Tree.startOf, hroot] at hthere hhere
    simp only [Tree.Leads, Tree.startOf, hp]
    rw [Tree.reaches_undotted_iff hsteps, Tree.reaches_undotted_iff hsteps]
    exact (Tree.reaches_append_iff hthere rest).trans (Tree.reaches_append_iff hhere rest).symm

theorem denotes_of_goesOn {d : Disk} {root p : Path} (hp : GoesOn root p) (hs : RootStays root d)
    {command : Command} (hc : command.directory = some root) : Denotes d command p p := by
  intro d' he l
  obtain ⟨r, hr, hdir, rfl⟩ := (enter_eq_ok hc).1 he
  refine leads_iff_of_goesOn hp (Disk.leads_of_resolve hr) hdir ?_ l
  exact hs.imp_right fun h => h r hr hdir

/-- The path of the root denotes what the program means exactly when it leads to itself. -/
theorem denotes_root_iff {d : Disk} {root : Path} {command : Command}
    (hc : command.directory = some root) :
    Denotes d command root root ↔ RootStays root d := by
  constructor
  · intro h
    apply Or.inr
    intro r hr hdir
    have e := (enter_eq_ok hc).2 ⟨r, hr, hdir, rfl⟩
    exact (h _ e r).2 (Disk.leads_of_resolve hr)
  · intro h
    exact denotes_of_goesOn (goesOn_self root) h hc

/-! ## Runs -/

/-- Where the path of the root stays, the paths of every command but a build check denote what the
program means. -/
theorem faithful_of_rootStays {c : Config} {s : Session} (hs : RootStays c.root s.disk)
    {command : Command} (hcommand : ∀ p, command ≠ Build.checkCommand c.root p) :
    (Event.call s command).Faithful c := by
  intro written meant hm
  cases hm with
  | entry => exact absurd rfl (hcommand written)
  | reset p hp =>
    refine denotes_of_goesOn ?_ hs rfl
    rcases hp with rfl | rfl
    · exact goesOn_self c.root
    · exact goesOn_resolve c c.nimCache
  | compile d test ht => exact denotes_of_goesOn (goesOn_of_mem_testFiles ht).1 hs rfl
  | test d test ht => exact denotes_of_goesOn (goesOn_of_mem_testFiles ht).2 hs rfl
  | capture => exact denotes_of_goesOn (goesOn_resolve c c.nimCache) hs rfl
  | report projectName => exact denotes_of_goesOn (goesOn_resolve c c.htmlDir) hs rfl

/-- A measurement checks no build. -/
theorem Coverage.Scheduled.ne_checkCommand {tools : Toolbox} {c : Config} {s : Session}
    {command : Command} (h : Scheduled tools c s command) (p : Path) :
    command ≠ Build.checkCommand c.root p := by
  intro hcommand
  cases h <;> simp [Build.checkCommand, resetCommand, compileCommand, runCommand, testCommand,
    captureCommand, extractCommand, summaryCommand, dueReport, reportCommand, Command.new,
    Command.arg, Command.arguments, Command.pathArg, Command.inDirectory] at hcommand

theorem Build.checkCommand_injective {root p q : Path}
    (h : checkCommand root p = checkCommand root q) : p = q := by
  have hargs : ["check", p.toString] = ["check", q.toString] := congrArg Command.args h
  obtain ⟨-, hpath, -⟩ : "check" = "check" ∧ p.toString = q.toString ∧ True := by
    simpa using hargs
  exact Path.toString_injective hpath

/-- A check of the entry that is found mentions nothing else. -/
theorem faithful_checkCommand {c : Config} {s : Session} {entry : Path}
    (hentry : Build.findEntry? s.disk c.root = some entry) :
    (Event.call s (Build.checkCommand c.root entry)).Faithful c := by
  intro written meant hm
  generalize hcommand : Build.checkCommand c.root entry = command at hm
  cases hm with
  | entry written found hfound =>
    obtain rfl := Build.checkCommand_injective hcommand
    obtain rfl := Option.some.inj (hentry.symm.trans hfound)
    exact denotes_entry s.disk c.root entry
  | reset | compile | test | capture | report =>
    simp [Build.checkCommand, resetCommand, compileCommand, testCommand, captureCommand,
      reportCommand, Command.new, Command.arg, Command.arguments, Command.pathArg,
      Command.inDirectory] at hcommand

theorem history_check (tools : Toolbox) (c : Config) (s : Session) :
    ∃ events, History tools s events ((Build.check tools c.root).run s).2 ∧
      ∀ e ∈ events, e.Faithful c := by
  unfold Build.check
  rw [run_ask_bind]
  cases hentry : Build.findEntry? s.disk c.root with
  | none => exact ⟨[], .nil s, by simp⟩
  | some entry =>
    refine ⟨[.call s (Build.checkCommand c.root entry)], ?_, ?_⟩
    · simp only
      rw [run_issue_bind]
      cases s.answer tools (Build.checkCommand c.root entry) <;> exact .call _ (.nil _)
    · intro e he
      rw [List.mem_singleton.1 he]
      exact faithful_checkCommand hentry

theorem faithful_reset_iff (c : Config) (s : Session) :
    (Event.call s (resetCommand c.root c.root)).Faithful c ↔ RootStays c.root s.disk := by
  constructor
  · intro h
    exact (denotes_root_iff rfl).1 (h _ _ (.reset c.root (.inl rfl)))
  · intro h
    refine faithful_of_rootStays h fun p hcommand => ?_
    simp [Build.checkCommand, resetCommand, Command.new, Command.arg, Command.arguments,
      Command.pathArg, Command.inDirectory] at hcommand

/-- **The paths of a build check always denote what the program means, and those of a measurement do
while the path of the root leads from the root to itself.** Else the command that comes first, the
reset of the counters in the root, looks elsewhere. -/
theorem faithful_iff_rootStays (tools : Toolbox) (c : Config) (s : Session) :
    (∃ events, History tools s events ((Build.check tools c.root).run s).2 ∧
      ∀ e ∈ events, e.Faithful c) ∧
    ∃ events, History tools s events ((calculate tools c).run s).2 ∧
      (∀ s' command, .call s' command ∈ events → RootStays c.root s'.disk →
        (Event.call s' command).Faithful c) ∧
      ((tools.locate s.disk "lcov").isSome = true →
        ∃ s', .call s' (resetCommand c.root c.root) ∈ events ∧
          ((Event.call s' (resetCommand c.root c.root)).Faithful c ↔
            RootStays c.root s'.disk)) := by
  refine ⟨history_check tools c s, ?_⟩
  by_cases hl : (tools.locate s.disk "lcov").isSome = true
  · rw [run_calculate_of_located c hl]
    obtain ⟨events, last, hcourse, hlast⟩ := course_measure? tools c s
    obtain ⟨sweep, hsweep, -⟩ := exists_sweep tools c last
    have hh := hcourse.history.append hsweep
    rw [← hlast] at hh
    have hcommands := hh.commands_eq (issued_measure? tools c s)
    obtain ⟨before, s₁, captured, s₂, behind, rfl, -, -, -, -, s', hs'⟩ := hcourse
    refine ⟨before ++ captured ++ behind ++ sweep, hh, fun s' command hmem hs => ?_,
      fun _ => ⟨s', ?_, ?_⟩⟩
    · have hscheduled : command ∈ commands tools c s :=
        hcommands ▸ List.mem_filterMap.2 ⟨_, hmem, rfl⟩
      exact faithful_of_rootStays hs (mem_commands_iff.1 hscheduled).ne_checkCommand
    · simp [hs']
    · exact faithful_reset_iff c s'
  · rw [run_calculate_of_not_located c hl]
    refine ⟨[], .nil s, fun s' command hmem => ?_, fun h => absurd h hl⟩
    cases hmem

/-- The configuration of a project in a directory below the working directory. -/
def configBelow : Config := .standard none (.ofString "proj")

/-- **The program of a test is missing for the command that runs it**, although it is a regular file
for the program that issues the command. -/
theorem not_denotes_program :
    testCommand (.ofString "proj") (.ofString "proj/tests/t_a") ∈
        issuedBy (calculate Toolbox.silent configBelow) leftoverProject ∧
      turn Toolbox.silent configBelow leftoverProject (.ofString "proj/tests/t_a.nim") =
        leftoverProject.disk ∧
      leftoverProject.disk.isFile (.ofString "proj/tests/t_a") = true ∧
      ¬ Denotes leftoverProject.disk
        (testCommand (.ofString "proj") (.ofString "proj/tests/t_a"))
        (.ofString "proj/tests/t_a") (.ofString "proj/tests/t_a") := by
  have hpassive : Toolbox.silent.Passive := fun _ _ _ t ht => nomatch ht
  have hproject : leftoverProject.disk.Settled := Disk.settled_of_node? rfl
  have hsettled := settled_withoutCounters configBelow hproject
  have hcounters : (withoutCounters configBelow leftoverProject).disk = leftoverProject.disk := by
    have hroot : (removeCounters configBelow.root leftoverProject.disk).2 = leftoverProject.disk :=
      hproject.removeFilesBelow_eq rfl
    simp only [withoutCounters, hroot]
    exact hproject.removeFilesBelow_eq rfl
  have hsuite : suite Toolbox.silent configBelow leftoverProject =
      [.ofString "proj/tests/t_a.nim"] := by
    rw [suite, beforeSearch, hpassive.disk_afterAll hsettled, hcounters]
    exact Sources.testFiles_eq_singleton (p := .ofString "proj/tests")
      (l := ["proj".toList, "tests".toList]) (by decide) rfl rfl (by decide) (by decide)
  have hturn : turn Toolbox.silent configBelow leftoverProject (.ofString "proj/tests/t_a.nim") =
      leftoverProject.disk := by
    rw [turn, hpassive.disk_afterAll hsettled, hcounters]
  refine ⟨?_, hturn, rfl, ?_⟩
  · rw [issuedBy_calculate _ _ _ rfl]
    change runCommand configBelow.root (.ofString "proj/tests/t_a.nim") ∈ _
    rw [runCommand_mem_commands_iff (by simp [hsuite]), mem_ran_iff (by simp [hsuite]), hturn]
    rfl
  · intro h
    have hthere : leftoverProject.disk.tree.Leads leftoverProject.disk.here
        (.ofString "proj/tests/t_a") ["proj".toList, "tests".toList, "t_a".toList] :=
      Disk.leads_of_resolve rfl
    obtain ⟨b, n, hb⟩ := (h ⟨leftoverProject.disk.tree, ["proj".toList]⟩ rfl _).2 hthere
    cases b <;> cases hb

end StatusBadges
