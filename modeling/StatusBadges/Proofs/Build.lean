import StatusBadges.Proofs.Command.Sequence
import StatusBadges.Proofs.Coverage.Cleaning
import StatusBadges.Proofs.Sources.Walk
import StatusBadges.Proofs.Text

/-!
# The entry file of a project

A project is checked by one file. Two files win over all others, when they are there (`OpensFile`);
else it is the least of the sources that do not mention tests (`IsEntry`). Without such a file
nothing is run, and otherwise one command, whose start and exit code decide the build status
(`entry_decides_build`). A path that is too long leads nowhere, so that a file can be passed over
when the path of the root is long (`passes_over_long_paths`).
-/

namespace StatusBadges

namespace Disk

/-- The names lead from the directory `r` to a regular file, links followed, and their path behind
that of the root can be looked up. -/
structure OpensFile (d : Disk) (root : Path) (r : Location) (names : List Name) : Prop where
  leads : ∃ m content mode, d.tree.Reaches r names m ∧ d.tree.node? m = some (.file content mode)
  lookedUp : ∃ m, d.resolve (root.join (.ofNames names)) = .ok m

theorem isFile_join_iff {d : Disk} {root : Path} {r : Location} {names : List Name}
    (hroot : d.resolve root = .ok r) (hr : d.tree.node? r = some .directory)
    (h : Path.Plain names) :
    d.isFile (root.join (.ofNames names)) = true ↔ d.OpensFile root r names := by
  have hleads (m : Location) :
      d.tree.Leads d.here (root.join (.ofNames names)) m ↔ d.tree.Reaches r names m :=
    Tree.leads_join_ofNames_iff (leads_of_resolve hroot) (Tree.found?_of_node? hr) h m
  rw [isFile_iff]
  constructor
  · intro hfile
    obtain ⟨content, mode, hnode⟩ := hfile
    obtain ⟨m, hm, hfound⟩ := node?_eq_file_iff.1 hnode
    exact ⟨⟨m, content, mode, (hleads m).1 (leads_of_resolve hm), hfound⟩, m, hm⟩
  · intro hopens
    obtain ⟨⟨m, content, mode, hreach, hnode⟩, k, hk⟩ := hopens
    have hsame := ((hleads k).1 (leads_of_resolve hk)).unique hreach
    exact ⟨content, mode, node?_of_resolve (hsame ▸ hk) hnode⟩

end Disk

namespace Build

open Session Coverage

/-- The names lead from the root of a project to a source whose path does not mention tests. -/
structure IsOrdinary (d : Disk) (root : Path) (r : Location) (names : List Name) : Prop where
  source : d.tree.HoldsSource r names
  entered : root.Enters names
  untested : ¬ "test".toList <:+: (Path.ofNames names).chars

/-- What a project is checked by: one of two files that win over all others, or else the least of
the ordinary sources. -/
inductive IsEntry (d : Disk) (root : Path) (r : Location) : Path → Prop
  | main (h : d.OpensFile root r ["main.nim".toList]) : IsEntry d root r (.ofString "main.nim")
  | sourceMain (hno : ¬ d.OpensFile root r ["main.nim".toList])
      (h : d.OpensFile root r ["src".toList, "main.nim".toList]) :
      IsEntry d root r (.ofString "src/main.nim")
  | least {names : List Name} (hno : ¬ d.OpensFile root r ["main.nim".toList])
      (hnone : ¬ d.OpensFile root r ["src".toList, "main.nim".toList])
      (h : IsOrdinary d root r names)
      (hle : ∀ other, IsOrdinary d root r other →
        (Path.ofNames names).le (.ofNames other) = true) :
      IsEntry d root r (.ofNames names)

/-! ## Finding the entry file -/

theorem findEntry?_eq (d : Disk) (root : Path) : findEntry? d root =
    if d.isFile (root.join (.ofNames ["main.nim".toList])) then some (.ofString "main.nim")
    else if d.isFile (root.join (.ofNames ["src".toList, "main.nim".toList])) then
      some (.ofString "src/main.nim")
    else (Sources.nimFiles d root).find? fun p => !Text.occurs ['t', 'e', 's', 't'] p.chars := by
  have hmain : Path.ofNames ["main.nim".toList] = .ofString "main.nim" := rfl
  have hsource : Path.ofNames ["src".toList, "main.nim".toList] = .ofString "src/main.nim" := rfl
  rw [hmain, hsource, findEntry?, entryCandidates, List.map_cons, List.map_cons, List.map_nil]
  cases h : d.isFile (root.join (.ofString "main.nim")) with
  | true => simp [h]
  | false =>
    cases h' : d.isFile (root.join (.ofString "src/main.nim")) <;> simp [h, h']

section Directory

variable {d : Disk} {root : Path} {r : Location} (hroot : d.resolve root = .ok r)
  (hr : d.tree.node? r = some .directory)
include hroot hr

theorem isFile_main_iff : d.isFile (root.join (.ofNames ["main.nim".toList])) = true ↔
    d.OpensFile root r ["main.nim".toList] :=
  Disk.isFile_join_iff hroot hr (by unfold Path.Plain; decide)

theorem isFile_sourceMain_iff :
    d.isFile (root.join (.ofNames ["src".toList, "main.nim".toList])) = true ↔
      d.OpensFile root r ["src".toList, "main.nim".toList] :=
  Disk.isFile_join_iff hroot hr (by unfold Path.Plain; decide)

/-- The sources that do not mention tests are the ordinary ones. -/
theorem mem_nimFiles_untested_iff (p : Path) :
    (p ∈ Sources.nimFiles d root ∧ (!Text.occurs ['t', 'e', 's', 't'] p.chars) = true) ↔
      ∃ names, p = .ofNames names ∧ IsOrdinary d root r names := by
  rw [Sources.mem_nimFiles_iff hroot hr, Bool.not_eq_true', Text.occurs_eq_false_iff]
  constructor
  · intro h
    obtain ⟨⟨names, rfl, hsource, hentered⟩, huntested⟩ := h
    exact ⟨names, rfl, hsource, hentered, huntested⟩
  · intro h
    obtain ⟨names, rfl, hordinary⟩ := h
    exact ⟨⟨names, rfl, hordinary.source, hordinary.entered⟩, hordinary.untested⟩

theorem findEntry?_eq_some_iff (p : Path) : findEntry? d root = some p ↔ IsEntry d root r p := by
  have hmain := isFile_main_iff hroot hr
  have hsource := isFile_sourceMain_iff hroot hr
  have hordinary := mem_nimFiles_untested_iff hroot hr
  rw [findEntry?_eq]
  constructor
  · intro h
    split at h
    · next hfile =>
      cases h
      exact .main (hmain.1 hfile)
    next hno =>
    split at h
    · next hfile =>
      cases h
      exact .sourceMain (mt hmain.2 hno) (hsource.1 hfile)
    next hnone =>
    rw [Path.find?_eq_some_iff_least (Sources.pairwise_nimFiles d root)] at h
    obtain ⟨hmem, huntested, hle⟩ := h
    obtain ⟨names, rfl, hnames⟩ := (hordinary p).1 ⟨hmem, huntested⟩
    refine .least (mt hmain.2 hno) (mt hsource.2 hnone) hnames ?_
    intro other hother
    obtain ⟨hmem', huntested'⟩ := (hordinary (.ofNames other)).2 ⟨other, rfl, hother⟩
    exact hle _ hmem' huntested'
  · intro h
    cases h with
    | main h => rw [if_pos (hmain.2 h)]
    | sourceMain hno h => rw [if_neg (mt hmain.1 hno), if_pos (hsource.2 h)]
    | @least names hno hnone h hle =>
      rw [if_neg (mt hmain.1 hno), if_neg (mt hsource.1 hnone),
        Path.find?_eq_some_iff_least (Sources.pairwise_nimFiles d root)]
      obtain ⟨hmem, huntested⟩ := (hordinary (.ofNames names)).2 ⟨names, rfl, h⟩
      refine ⟨hmem, huntested, ?_⟩
      intro q hq hwanted
      obtain ⟨other, rfl, hother⟩ := (hordinary q).1 ⟨hq, hwanted⟩
      exact hle other hother

theorem findEntry?_eq_none_iff : findEntry? d root = none ↔
    ¬ d.OpensFile root r ["main.nim".toList] ∧
      ¬ d.OpensFile root r ["src".toList, "main.nim".toList] ∧
      ∀ names, ¬ IsOrdinary d root r names := by
  have hordinary := mem_nimFiles_untested_iff hroot hr
  rw [findEntry?_eq, ← isFile_main_iff hroot hr, ← isFile_sourceMain_iff hroot hr]
  split
  · next hmain => exact iff_of_false (Option.some_ne_none _) fun h => h.1 hmain
  split
  · next hsource => exact iff_of_false (Option.some_ne_none _) fun h => h.2.1 hsource
  next hmain hsource =>
  rw [List.find?_eq_none]
  constructor
  · intro h
    refine ⟨hmain, hsource, ?_⟩
    intro names hnames
    obtain ⟨hmem, huntested⟩ := (hordinary _).2 ⟨names, rfl, hnames⟩
    exact h _ hmem huntested
  · intro h p hp huntested
    obtain ⟨names, -, hnames⟩ := (hordinary p).1 ⟨hp, huntested⟩
    exact h.2.2 names hnames

end Directory

/-! ## Checking it -/

/-- The status that the answer to a check says. -/
def statusOf : Except Failure Output → BuildStatus
  | .ok output => if output.success then .passing else .failing
  | .error _ => .failing

theorem statusOf_eq_passing_iff (answer : Except Failure Output) :
    statusOf answer = .passing ↔ ∃ output, answer = .ok output ∧ output.code = 0 := by
  cases answer with
  | error failure => simp [statusOf]
  | ok output => simp [statusOf, Output.success]

theorem statusOf_cases (answer : Except Failure Output) :
    statusOf answer = .passing ∨ statusOf answer = .failing := by
  cases answer with
  | error failure => exact .inr rfl
  | ok output => cases h : output.success <;> simp [statusOf, h]

theorem run_check (tools : Toolbox) (root : Path) (s : Session) : (check tools root).run s =
    match findEntry? s.disk root with
    | none => (.noSource, s)
    | some entry => (statusOf (s.answer tools (checkCommand root entry)),
        s.after tools (checkCommand root entry)) := by
  rw [check, run_ask_bind]
  cases findEntry? s.disk root with
  | none => rfl
  | some entry =>
    rw [run_issue_bind]
    change _ = (statusOf (s.answer tools (checkCommand root entry)), _)
    cases s.answer tools (checkCommand root entry) <;> rfl

/-- **The entry file decides whether a project builds.** It is found by its rank and its place in
the order of paths. Without one the project has no source and no command is issued. Otherwise there
is one command, the check of that file in the root, and the project passes exactly when this command
starts and ends with zero. -/
theorem entry_decides_build {d : Disk} {root : Path} {r : Location} (hroot : d.resolve root = .ok r)
    (hr : d.tree.node? r = some .directory) :
    (∀ p, findEntry? d root = some p ↔ IsEntry d root r p) ∧
    ( findEntry? d root = none ↔
      ¬ d.OpensFile root r ["main.nim".toList] ∧
        ¬ d.OpensFile root r ["src".toList, "main.nim".toList] ∧
        ∀ names, ¬ IsOrdinary d root r names) ∧
    ∀ (tools : Toolbox) (s : Session), s.disk = d →
      (issuedBy (check tools root) s = [] ↔ findEntry? d root = none) ∧
      (((check tools root).run s).1 = .noSource ↔ findEntry? d root = none) ∧
      ∀ entry command, findEntry? d root = some entry →
        command = ⟨"nim", ["check", entry.toString], some root⟩ →
        issuedBy (check tools root) s = [command] ∧
        ((check tools root).run s).2 = s.after tools command ∧
        (((check tools root).run s).1 = .passing ↔
          ∃ output, s.answer tools command = .ok output ∧ output.code = 0) ∧
        (((check tools root).run s).1 = .failing ↔
          ¬ ∃ output, s.answer tools command = .ok output ∧ output.code = 0) := by
  refine ⟨findEntry?_eq_some_iff hroot hr, findEntry?_eq_none_iff hroot hr, ?_⟩
  intro tools s hs
  subst hs
  have hrun := run_check tools root s
  cases hfind : findEntry? s.disk root with
  | none =>
    rw [hfind] at hrun
    simp [issuedBy, hrun]
  | some entry =>
    rw [hfind] at hrun
    have hissued : issuedBy (check tools root) s = [checkCommand root entry] := by
      rw [issuedBy, hrun, issued_after, List.drop_left]
    have hcases := statusOf_cases (s.answer tools (checkCommand root entry))
    have hpassing := statusOf_eq_passing_iff (s.answer tools (checkCommand root entry))
    refine ⟨by simp [hissued], ?_, ?_⟩
    · rw [hrun]
      rcases hcases with h | h <;> simp [h]
    · intro entry' command he hcommand
      cases he
      have hsame : command = checkCommand root entry := hcommand
      rw [hrun, hsame]
      refine ⟨hissued, rfl, hpassing, ?_⟩
      rw [← hpassing]
      rcases hcases with h | h <;> simp [h]

/-- A project with one source that does not mention tests. -/
def readerProject : Disk where
  tree :=
    { entries :=
        [(["p".toList], .directory), (["p".toList, "lib".toList], .directory),
          (["p".toList, "lib".toList, "reader.nim".toList], .file (.text "") 0o644),
          (["p".toList, "tests".toList], .directory),
          (["p".toList, "tests".toList, "t_eval.nim".toList], .file (.text "") 0o644),
          (["p".toList, "test_helpers.nim".toList], .file (.text "") 0o644)]
      distinct := by decide
      rooted := by decide
      named := by decide }
  here := []

theorem isOrdinary_readerProject_iff (names : List Name) :
    IsOrdinary readerProject (.ofString "p") ["p".toList] names ↔
      names = ["lib".toList, "reader.nim".toList] := by
  constructor
  · intro h
    obtain ⟨content, mode, hnode⟩ := h.source.exists_entry
    have huntested := Text.occurs_eq_false_iff.2 h.untested
    simp only [readerProject, List.mem_cons, Prod.mk.injEq, reduceCtorEq, and_false, false_or,
      List.not_mem_nil, or_false] at hnode
    rcases hnode with ⟨e, -⟩ | ⟨e, -⟩ | ⟨e, -⟩
    · exact (List.cons.inj e).2
    · obtain ⟨-, rfl⟩ := List.cons.inj e
      cases huntested
    · obtain ⟨-, rfl⟩ := List.cons.inj e
      cases huntested
  · intro h
    subst h
    refine ⟨⟨⟨_, _, rfl⟩, ⟨["lib".toList], "reader".toList, by decide, by decide⟩, by decide⟩, rfl,
      ?_⟩
    exact Text.occurs_eq_false_iff.1 rfl

/-- The check of the project, whose compiler cannot be started, fails. -/
theorem entry_decides_build_readerProject :
    readerProject.resolve (.ofString "p") = .ok ["p".toList] ∧
      readerProject.tree.node? ["p".toList] = some .directory ∧
      findEntry? readerProject (.ofString "p") = some (.ofString "lib/reader.nim") ∧
      issuedBy (check .silent (.ofString "p")) ⟨readerProject, []⟩ =
        [⟨"nim", ["check", "lib/reader.nim"], some (.ofString "p")⟩] ∧
      ((check .silent (.ofString "p")).run ⟨readerProject, []⟩).1 = .failing := by
  have hroot : readerProject.resolve (.ofString "p") = .ok ["p".toList] := by decide
  have hr : readerProject.tree.node? ["p".toList] = some .directory := by decide
  obtain ⟨hentry, -, hcheck⟩ := entry_decides_build hroot hr
  have hfind : findEntry? readerProject (.ofString "p") = some (.ofString "lib/reader.nim") := by
    have hsource := (isOrdinary_readerProject_iff _).2 rfl
    refine (hentry _).2 (.least (mt (isFile_main_iff hroot hr).2 (by decide))
      (mt (isFile_sourceMain_iff hroot hr).2 (by decide)) hsource ?_)
    intro other hother
    rw [(isOrdinary_readerProject_iff other).1 hother]
    exact Path.le_refl _
  obtain ⟨-, -, hentry⟩ := hcheck .silent ⟨readerProject, []⟩ rfl
  obtain ⟨hissued, -, -, hfailing⟩ := hentry _ _ hfind rfl
  refine ⟨hroot, hr, hfind, hissued, hfailing.2 ?_⟩
  intro h
  obtain ⟨output, hok, -⟩ := h
  cases hok

/-! ## Paths that are too long -/

/-- A project with a main file in its root and another source. -/
def mainProject : Disk where
  tree :=
    { entries :=
        [(["p".toList], .directory),
          (["p".toList, "main.nim".toList], .file (.text "") 0o644),
          (["p".toList, "a.nim".toList], .file (.text "") 0o644)]
      distinct := by decide
      rooted := by decide
      named := by decide }
  here := []

/-- A project with one source, in a directory. -/
def deepProject : Disk where
  tree :=
    { entries :=
        [(["p".toList], .directory), (["p".toList, "source".toList], .directory),
          (["p".toList, "source".toList, "a.nim".toList], .file (.text "") 0o644)]
      distinct := by decide
      rooted := by decide
      named := by decide }
  here := []

theorem linkless_mainProject : mainProject.tree.Linkless := by
  rw [Tree.linkless_iff]
  simp [mainProject]

theorem linkless_deepProject : deepProject.tree.Linkless := by
  rw [Tree.linkless_iff]
  simp [deepProject]

/-- Nothing opens behind a path with so many slashes. -/
theorem not_opensFile_slashes {d : Disk} {r : Location} {names : List Name}
    (hnames : Path.Plain names) (hlen : 5 ≤ octetCount (Path.ofNames names).chars) :
    ¬ d.OpensFile (padded [] 4090) r names := by
  intro h
  obtain ⟨m, hm⟩ := h.lookedUp
  obtain ⟨-, -, hfits⟩ := Disk.checkText_iff.1 (Disk.resolve_eq_ok.1 hm).1
  rw [not_fits_join_slashes (Path.isAbsolute_ofNames hnames) hlen] at hfits
  cases hfits

/-- No directory below is entered by a path with so many slashes. -/
theorem not_enters_slashes {names : List Name} {n : Name} (h : Path.Plain names) (hne : names ≠ [])
    (hlen : 5 ≤ octetCount (Path.ofNames names).chars) :
    ¬ (padded [] 4090).Enters (names ++ [n]) := by
  rw [Path.enters_concat_iff, ← Path.join_ofNames h hne,
    not_fits_join_slashes (Path.isAbsolute_ofNames h) hlen]
  exact Bool.false_ne_true

/-- No source in a directory below is ordinary behind a path with so many slashes. -/
theorem not_isOrdinary_deepProject (names : List Name) :
    ¬ IsOrdinary deepProject (padded [] 4090) ["p".toList] names := by
  intro h
  obtain ⟨content, mode, hnode⟩ := h.source.exists_entry
  simp only [deepProject, List.mem_cons, Prod.mk.injEq, reduceCtorEq, and_false, false_or,
    List.not_mem_nil, or_false] at hnode
  obtain ⟨-, rfl⟩ := List.cons.inj hnode.1
  have hplain : Path.Plain ["source".toList] := by
    unfold Path.Plain
    decide
  exact not_enters_slashes hplain (by decide) (by decide) h.entered

/-- With many slashes behind the root the main file is passed over for another source, which is
found in the directory itself; and a source in a directory below is not found at all. -/
theorem passes_over_long_paths :
    (mainProject.resolve (padded [] 4090) = .ok ["p".toList] ∧
      mainProject.tree.node? (["p".toList] ++ ["main.nim".toList]) = some (.file (.text "") 0o644) ∧
      findEntry? mainProject (padded [] 4090) = some (.ofString "a.nim")) ∧
    (deepProject.resolve (padded [] 4090) = .ok ["p".toList] ∧
      deepProject.tree.HoldsSource ["p".toList] ["source".toList, "a.nim".toList] ∧
      ¬ "test".toList <:+: (Path.ofNames ["source".toList, "a.nim".toList]).chars ∧
      findEntry? deepProject (padded [] 4090) = none) := by
  have hmain := resolve_padded rfl linkless_mainProject rfl rfl fits_slashes
  have hdeep := resolve_padded rfl linkless_deepProject rfl rfl fits_slashes
  have hno (d : Disk) (r : Location) : ¬ d.OpensFile (padded [] 4090) r ["main.nim".toList] :=
    not_opensFile_slashes (by unfold Path.Plain; decide) (by decide)
  have hnone (d : Disk) (r : Location) :
      ¬ d.OpensFile (padded [] 4090) r ["src".toList, "main.nim".toList] :=
    not_opensFile_slashes (by unfold Path.Plain; decide) (by decide)
  refine ⟨⟨hmain, rfl, ?_⟩, hdeep, ?_, Text.occurs_eq_false_iff.1 rfl, ?_⟩
  · have hsource : IsOrdinary mainProject (padded [] 4090) ["p".toList] ["a.nim".toList] :=
      ⟨⟨⟨_, _, rfl⟩, ⟨[], ['a'], by decide, by decide⟩, by decide⟩,
        (Path.enters_concat_iff [] _).2 fits_slashes, Text.occurs_eq_false_iff.1 rfl⟩
    refine (findEntry?_eq_some_iff hmain rfl _).2 (.least (hno _ _) (hnone _ _) hsource ?_)
    intro other hother
    obtain ⟨content, mode, hnode⟩ := hother.source.exists_entry
    simp only [mainProject, List.mem_cons, Prod.mk.injEq, reduceCtorEq, and_false, false_or,
      List.not_mem_nil, or_false] at hnode
    rcases hnode with ⟨e, -⟩ | ⟨e, -⟩
    · obtain ⟨-, rfl⟩ := List.cons.inj e
      decide
    · obtain ⟨-, rfl⟩ := List.cons.inj e
      exact Path.le_refl _
  · exact ⟨⟨_, _, rfl⟩, ⟨["source".toList], ['a'], by decide, by decide⟩, by decide⟩
  · exact (findEntry?_eq_none_iff hdeep rfl).2 ⟨hno _ _, hnone _ _, not_isOrdinary_deepProject⟩

end Build
end StatusBadges
