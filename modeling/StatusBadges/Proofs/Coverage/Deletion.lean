import StatusBadges.Proofs.Coverage.Calculation
import StatusBadges.Proofs.Storage.Joined

/-!
# What coverage runs delete

`Artifact` is what a coverage run leaves behind, as the documentation has it. Up to its last step a
measurement or a clean-up deletes nothing else (`Chore.deletesOnly`). The last step takes every
executable file below the tests directory that is no source for a compiled test, and deletes exactly
these (`Swept`). So a run keeps to the artifacts exactly when all of them are artifacts, which
nothing ensures: a script among the tests is one of them and no artifact.
-/

namespace StatusBadges.Coverage

open Session

/-! ## Artifacts -/

/-- What a coverage run leaves behind: a counter file below the root or the compiler cache, a trace
file directly in the root, a file of the report, or a compiled test, whose path is that of a source
below the tests directory without its extension. -/
inductive Artifact (c : Config) (d : Disk) (l : Location) : Prop
  | counter (p : Path) (hp : p = c.root ∨ p = c.nimCachePath) (hl : d.Inside p l) (n : Name)
      (hn : l.getLast? = some n) (hc : isCounterName n = true)
  | trace (r : Location) (hr : d.tree.Leads d.here c.root r) (name : String)
      (hn : name = traceFile ∨ name = sourceTraceFile) (hl : l = r ++ [name.toList])
  | report (hl : d.Inside c.htmlPath l)
  | compiledTest (directory : Location) (source : Name) (content : Content) (mode : Nat)
      (hs : d.tree.node? (directory ++ [source]) = some (.file content mode))
      (he : source.extension? = some Sources.sourceExtension)
      (hl : l = directory ++ [source.stem]) (hd : d.Inside c.testsPath l)

/-- What is taken for a compiled test: an executable file below the tests directory that is no
source. -/
def Swept (c : Config) (d : Disk) (l : Location) : Prop :=
  d.WantedBelow c.testsPath isCompiledTest l

/-- The files that an event deletes are allowed to go. -/
def DeletesOnly (allowed : Disk → Location → Prop) : Event → Prop
  | .change d t => ∀ l, d.tree.Loses t l → allowed d l
  | .call _ _ => True

theorem inside_of_wantedBelow {d : Disk} {p : Path} {wanted : Name → Node → Bool} {l : Location}
    (h : d.WantedBelow p wanted l) : d.Inside p l := by
  obtain ⟨r, content, mode, hr, -, hpre, hne, -⟩ := h
  exact ⟨r, Disk.leads_of_resolve hr, hpre, hne⟩

/-- The entry that a plain name in the root stands for is directly in the root. -/
theorem leads_of_entry {d : Disk} {root : Path} {name : Name} {l : Location}
    (hslash : '/' ∉ name) (hne : name ≠ []) (h : d.Entry (root.child name) l) :
    ∃ r, d.tree.Leads d.here root r ∧ l = r ++ [name] := by
  obtain ⟨directory, last, hs, -, rfl⟩ := h
  obtain ⟨before, hparts, -, hf, -⟩ := Disk.slot_eq_ok hs
  rw [Path.parts_child hslash hne] at hparts
  obtain ⟨rfl, hlast⟩ := List.append_inj' hparts rfl
  cases hlast
  refine ⟨directory, ?_, rfl⟩
  have hreach := Tree.reaches_of_follow hf
  have hstart : d.start (root.child name) = Tree.startOf root d.here := by
    simp only [Disk.start, Tree.startOf, Path.isAbsolute_child hslash]
  rw [hstart] at hreach
  exact Tree.leads_of_reaches_parts hreach

theorem Chore.deletesOnly {c : Config} {e : Event} (h : Chore c e) :
    DeletesOnly (Artifact c) e := by
  cases h with
  | counters p hp h =>
    intro l hl
    have hw := h l hl
    obtain ⟨r, content, mode, -, -, hpre, hne, -, hname, -⟩ := id hw
    cases hlast : l.getLast? with
    | none =>
      rw [hlast] at hname
      cases hname
    | some n =>
      rw [hlast] at hname
      exact .counter p hp (inside_of_wantedBelow hw) n hlast hname
  | trace name hn h =>
    intro l hl
    have hplain : '/' ∉ name.toList ∧ name.toList ≠ [] := by
      rcases hn with rfl | rfl <;> decide
    obtain ⟨r, hr, e⟩ := leads_of_entry hplain.1 hplain.2 (h l hl)
    exact .trace r hr name hn e
  | report h => exact fun l hl => .report (h l hl)
  | reset => trivial
  | compile => trivial
  | test => trivial
  | extract => trivial
  | genhtml => trivial

/-! ## Runs -/

/-- A run that ends with the removal of the compiled tests. Before that it deletes artifacts only,
so that it deletes artifacts only exactly when all that is swept at the end are artifacts. -/
def EndsWithSweep (tools : Toolbox) (c : Config) (s final : Session) : Prop :=
  ∃ events last sweep, History tools s events last ∧ History tools last sweep final ∧
    (∀ e ∈ events, DeletesOnly (Artifact c) e) ∧
    (∀ l, last.disk.tree.Loses final.disk.tree l ↔ Swept c last.disk l) ∧
    ((∀ e ∈ events ++ sweep, DeletesOnly (Artifact c) e) ↔
      ∀ l, Swept c last.disk l → Artifact c last.disk l)

theorem endsWithSweep_of_chores {tools : Toolbox} {c : Config} {s last : Session}
    {events : List Event} (hh : History tools s events last)
    (hevents : ∀ e ∈ events, DeletesOnly (Artifact c) e) :
    EndsWithSweep tools c s
      { last with disk := (removeCompiledTests c.testsPath last.disk).2 } := by
  rcases Disk.removeFilesBelow_cases last.disk c.testsPath isCompiledTest with
    ⟨e, hnone⟩ | ⟨t, e, -, ht⟩
  · refine ⟨events, last, [], hh, ?_, hevents, ?_, ?_⟩
    · rw [removeCompiledTests, e]
      exact .nil last
    · intro l
      rw [removeCompiledTests, e]
      exact iff_of_false Tree.Loses.not_self (hnone l)
    · rw [List.append_nil]
      exact iff_of_true hevents fun l hl => absurd hl (hnone l)
  · refine ⟨events, last, [.change last.disk t], hh, ?_, hevents, ?_, ?_⟩
    · rw [removeCompiledTests, e]
      exact .change t (.nil _)
    · intro l
      rw [removeCompiledTests, e]
      exact ht l
    · constructor
      · intro h l hl
        exact h (.change last.disk t) (by simp) l ((ht l).2 hl)
      · intro h e he
        rcases List.mem_append.1 he with he | he
        · exact hevents e he
        · rw [List.mem_singleton.1 he]
          exact fun l hl => h l ((ht l).1 hl)

/-- Removes what a clean-up removes before the compiled tests. -/
def tidy (c : Config) : Step (Bool × Nat × Nat × Nat) := do
  let htmlReport ← Session.change (removeReport c.htmlPath)
  let inRoot ← Session.change (removeCounters c.root)
  let inCache ← Session.change (removeCounters c.nimCachePath)
  let traces ← removeTraces c.root
  return (htmlReport, inRoot, inCache, traces)

theorem clean_eq (c : Config) : clean c = (do
    let (htmlReport, inRoot, inCache, traces) ← tidy c
    let compiledTests ← Session.change (removeCompiledTests c.testsPath)
    return ⟨inRoot + inCache, traces, compiledTests, htmlReport⟩) := by
  simp only [clean, tidy, bind_assoc, pure_bind]

theorem performs_tidy (tools : Toolbox) (c : Config) : Performs tools (Chore c) (tidy c) := by
  refine (performs_change fun d => ?_).bind fun _ => ?_
  · unfold removeReport
    split
    · have h := (Disk.edits_removeAll d c.htmlPath).mono fun d' t h => Chore.report h
      cases hr : d.removeAll c.htmlPath with
      | mk result d' =>
        rw [hr] at h
        cases result <;> exact h
    · exact .refl d
  refine (performs_removeCounters tools (permits_chore c) (.inl rfl)).bind fun _ => ?_
  refine (performs_removeCounters tools (permits_chore c) (.inr rfl)).bind fun _ => ?_
  exact (performs_removeTraces tools (permits_chore c)).bind fun _ => performs_pure _

theorem clean_endsWithSweep (tools : Toolbox) (c : Config) (s : Session) :
    EndsWithSweep tools c s ((clean c).run s).2 := by
  obtain ⟨events, hh, hevents⟩ := performs_tidy tools c s
  have e : ((clean c).run s).2 = { ((tidy c).run s).2 with
      disk := (removeCompiledTests c.testsPath ((tidy c).run s).2.disk).2 } := by
    rw [clean_eq]
    rfl
  rw [e]
  exact endsWithSweep_of_chores hh fun e he => (hevents e he).deletesOnly

theorem measure?_endsWithSweep (tools : Toolbox) (c : Config) (s : Session) :
    EndsWithSweep tools c s ((measure? tools c).run s).2 := by
  obtain ⟨events, last, hcourse, hlast⟩ := course_measure? tools c s
  rw [hlast]
  apply endsWithSweep_of_chores hcourse.history
  intro e he
  obtain ⟨before, s₁, captured, s₂, behind, rfl, -, hc, -, hchores, -⟩ := hcourse
  rw [List.append_assoc, List.mem_append, List.mem_append] at he
  rcases he with he | he | he
  · exact (hchores e (List.mem_append_left _ he)).deletesOnly
  · obtain ⟨s', command, rfl⟩ := hc.call he
    trivial
  · exact (hchores e (List.mem_append_right _ he)).deletesOnly

/-- **A clean-up and a measurement delete nothing but artifacts exactly when every executable file
that they sweep from the tests directory is one.** Without the coverage tool nothing is deleted. -/
theorem deletes_artifacts_iff (tools : Toolbox) (c : Config) (s : Session) :
    EndsWithSweep tools c s ((clean c).run s).2 ∧
      if (tools.locate s.disk "lcov").isSome then
        EndsWithSweep tools c s ((calculate tools c).run s).2
      else ((calculate tools c).run s).2 = s := by
  refine ⟨clean_endsWithSweep tools c s, ?_⟩
  split
  · next h =>
    rw [run_calculate_of_located c h]
    exact measure?_endsWithSweep tools c s
  · next h => rw [run_calculate_of_not_located c h]

/-- A project whose tests directory holds nothing but a script. -/
def scriptProject : Disk where
  tree :=
    { entries :=
        [(["proj".toList], .directory), (["proj".toList, "tests".toList], .directory),
          (["proj".toList, "tests".toList, "run_all.sh".toList],
            .file (.text "#!/bin/sh\n") 0o755)]
      distinct := by decide
      rooted := by decide
      named := by decide }
  here := []

/-- A clean-up deletes a script among the tests, which is no artifact. -/
theorem clean_deletes_script :
    scriptProject.tree.Loses
        ((clean (.standard none (.ofString "/proj"))).run ⟨scriptProject, []⟩).2.disk.tree
        ["proj".toList, "tests".toList, "run_all.sh".toList] ∧
      ¬ Artifact (.standard none (.ofString "/proj")) scriptProject
        ["proj".toList, "tests".toList, "run_all.sh".toList] := by
  refine ⟨⟨⟨.text "#!/bin/sh\n", 0o755, rfl⟩, fun content mode h => ?_⟩, ?_⟩
  · have hgone : ((clean (.standard none (.ofString "/proj"))).run
        ⟨scriptProject, []⟩).2.disk.tree.node?
        ["proj".toList, "tests".toList, "run_all.sh".toList] = none := by
      decide
    rw [hgone] at h
    cases h
  · intro h
    cases h with
    | counter p hp hl n hn hc =>
      cases hn
      revert hc
      decide
    | trace r hr name hn hl =>
      have hlast := congrArg List.getLast? hl
      rw [List.getLast?_concat] at hlast
      rcases hn with rfl | rfl <;> revert hlast <;> decide
    | report hl =>
      obtain ⟨r, hr, hpre, -⟩ := hl
      have hhtml : scriptProject.tree.Leads scriptProject.here
          (Config.htmlPath (.standard none (.ofString "/proj")))
          ["proj".toList, "coverage_html".toList] :=
        Disk.leads_of_resolve rfl
      rw [Tree.Leads.unique hr hhtml] at hpre
      revert hpre
      decide
    | compiledTest directory source content mode hs he hl hd =>
      have hmem := (Tree.node?_eq_some_iff (by simp)).1 hs
      obtain ⟨hfile, -⟩ : directory ++ [source] =
          ["proj".toList, "tests".toList, "run_all.sh".toList] ∧
            content = .text "#!/bin/sh\n" ∧ mode = 0o755 := by
        simpa [scriptProject] using hmem
      have hlast := congrArg List.getLast? hfile
      rw [List.getLast?_concat] at hlast
      cases hlast
      revert he
      decide

end StatusBadges.Coverage
