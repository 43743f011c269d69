import Mathlib.Algebra.Order.BigOperators.Group.List
import Mathlib.Algebra.Order.Ring.Nat
import StatusBadges.Coverage.Census
import StatusBadges.Proofs.Storage.Linkless
import StatusBadges.Proofs.Storage.Listing

/-!
# Test files in the census

The suite finds its test files by the path of the tests directory. The census finds all sources by
their names behind the path of the root, and takes for tests those whose path begins with the path
of the tests directory, component by component. Both find the same files (`Layout.ofSource_eq`), but
the census only recognises a tests directory that is written as the root is (`Config.recognises`).
Otherwise the project has no test blocks, and its test files count as sources
(`counts_test_files`).
-/

namespace StatusBadges

theorem Name.extension?_of_isTestName {n : Name} (h : Sources.isTestName n = true) :
    n.extension? = some Sources.sourceExtension := by
  simp only [Sources.isTestName, Bool.and_eq_true, List.isPrefixOf_iff_prefix,
    List.isSuffixOf_iff_suffix, decide_eq_true_eq] at h
  obtain ⟨⟨-, before, rfl⟩, hlen⟩ := h
  refine extension?_eq_some_iff.2 ⟨before, ?_, by decide, rfl⟩
  rintro rfl
  exact absurd hlen (by decide)

theorem Disk.readText_congr {d : Disk} {p q : Path} (h : d.resolve p = d.resolve q) :
    d.readText p = d.readText q := by
  rw [readText, readText, h]

/-- A path that is too long to be looked up cannot be read. -/
theorem Disk.exists_readText_error {d : Disk} {p : Path} (h : p.fits = false) :
    ∃ cause, d.readText p = .error cause := by
  cases hres : d.resolve p with
  | error cause => exact ⟨cause, by simp [readText, hres, bind, Except.bind]⟩
  | ok l =>
    obtain ⟨-, -, hfits⟩ := checkText_iff.1 (resolve_eq_ok.1 hres).1
    rw [h] at hfits
    cases hfits

/-- Numbers of distinct things add up to at most those of all. -/
theorem sum_map_le_of_subset {α : Type} {f : α → Nat} {part whole : List α} (hd : part.Nodup)
    (hs : part ⊆ whole) : (part.map f).sum ≤ (whole.map f).sum := by
  obtain ⟨same, hperm, hsub⟩ := List.subperm_of_subset hd hs
  rw [← (hperm.map f).sum_nat]
  exact (hsub.map f).sum_le_sum fun _ _ => Nat.zero_le _

/-- Whether the census takes what lies in this directory below the root for tests. The directory is
written as the names that lead to it behind the path of the root. -/
def Config.recognises (c : Config) (below : List Name) : Bool :=
  (c.root.join (.ofNames below)).startsWith c.testsPath

/-- A tests directory that is given by names from the root is recognised. -/
theorem Config.recognises_of_names {c : Config} {below : List Name} (hbelow : Path.Plain below)
    (h : c.testsDir = .ofNames below) : c.recognises below = true := by
  have hrelative := Path.isAbsolute_ofNames hbelow
  simp [recognises, testsPath, resolve, h, hrelative, Path.startsWith]

/-- An absolute tests directory is not recognised from a relative root. -/
theorem Config.recognises_of_isAbsolute {c : Config} {below : List Name}
    (hbelow : Path.Plain below) (hroot : c.root.isAbsolute = false)
    (htests : c.testsDir.isAbsolute = true) : c.recognises below = false := by
  have hpath : c.testsPath = c.testsDir := if_pos htests
  rw [← Bool.not_eq_true, recognises, Path.startsWith, List.isPrefixOf_iff_prefix, hpath]
  intro hprefix
  have hmem := hprefix.subset ((Path.isAbsolute_iff_mem_components _).1 htests)
  rw [← Path.isAbsolute_iff_mem_components,
    Path.isAbsolute_join (Path.isAbsolute_ofNames hbelow), hroot] at hmem
  cases hmem

namespace Census

/-- A project of directories and regular files, with its root at `r` and its tests directory at the
names `below` behind it, outside of directories that are not entered. -/
structure Layout (d : Disk) (c : Config) (r : Location) (below : List Name) : Prop where
  root : d.resolve c.root = .ok r
  tests : d.resolve c.testsPath = .ok (r ++ below)
  directory : d.tree.node? (r ++ below) = some .directory
  regular : ∀ names target, d.tree.node? (r ++ names) ≠ some (.link target)
  entered : below.any Sources.isSkipped = false

/-- What a test file counts, by whether its directory is recognised. -/
def ofTestFile (recognised : Bool) (n : Name) (text : List Char) : Census :=
  if recognised then ⟨TestSuite.countBlocks text, 0⟩
  else ⟨0, if mentionsTest n then 0 else Coverage.countDeclarations text⟩

namespace Layout

variable {d : Disk} {c : Config} {r : Location} {below : List Name} (h : Layout d c r below)
include h

theorem root_directory : d.tree.node? r = some .directory := by
  cases below with
  | nil => simpa using h.directory
  | cons n more => exact Tree.directory_above h.directory (List.prefix_append r _) (by simp)

theorem root_ne_nil : c.root.chars ≠ [] :=
  (Disk.checkText_iff.1 (Disk.resolve_eq_ok.1 h.root).1).2.1

theorem found_tests : d.tree.found? (r ++ below) = some .directory :=
  Tree.found?_of_node? h.directory

/-- The tests directory was looked up, so its names can be. -/
theorem short : Short below := by
  have hleads := Disk.leads_of_resolve h.tests
  have hroot := Disk.leads_of_resolve h.root
  unfold Config.testsPath Config.resolve at hleads
  split at hleads
  · next habs =>
    rw [Tree.Leads, Tree.startOf, if_pos habs] at hleads
    have hshort := hleads.entered.short
    exact fun n hn => hshort n (List.mem_append_right r hn)
  · next hrel =>
    have hrel : c.testsDir.isAbsolute = false := by simpa using hrel
    rw [Tree.leads_join_iff hrel hroot (Tree.found?_of_node? h.root_directory), Tree.Leads,
      Tree.startOf, hrel] at hleads
    exact hleads.entered.short

/-- **Sources are taken for tests only where the tests directory is recognised.** -/
theorem recognises_of_startsWith {names : List Name} {n : Node}
    (hn : d.tree.node? (r ++ names) = some n)
    (hs : (c.root.join (.ofNames names)).startsWith c.testsPath = true) :
    c.recognises below = true := by
  have hbelow := Tree.plain_of_node? h.directory
  simp only [Config.recognises, Path.startsWith, List.isPrefixOf_iff_prefix,
    Path.components_join_ofNames h.root_ne_nil hbelow,
    Path.components_join_ofNames h.root_ne_nil (Tree.plain_of_node? hn)] at hs ⊢
  rcases List.prefix_or_prefix_of_prefix hs (List.prefix_append _ _) with hroot | ⟨more, htests⟩
  · exact hroot.trans (List.prefix_append _ _)
  -- The path of the tests directory goes on from that of the root by names that lead to it.
  rw [← htests, List.prefix_append_right_inj] at hs
  obtain ⟨pre, hpre, rfl⟩ := List.prefix_map_iff.1 hs
  obtain ⟨m, hm⟩ := Tree.exists_node_of_prefix hpre hn
  have hplain := Tree.plain_of_node? hm
  have hleads := Tree.leads_of_components
    (htests.symm.trans (Path.components_join_ofNames h.root_ne_nil hplain).symm)
    (Disk.leads_of_resolve h.tests) h.found_tests
  rw [Tree.leads_join_ofNames_iff (Disk.leads_of_resolve h.root)
    (Tree.found?_of_node? h.root_directory) hplain] at hleads
  obtain ⟨-, e⟩ := (Tree.reaches_names_iff hm fun target e => h.regular _ target (e ▸ hm)).1 hleads
  exact ⟨[], by rw [List.append_nil, ← htests, List.append_cancel_left e]⟩

theorem startsWith_of_recognises (hr : c.recognises below = true) {n : Name} {node : Node}
    (hn : d.tree.node? (r ++ (below ++ [n])) = some node) :
    (c.root.join (.ofNames (below ++ [n]))).startsWith c.testsPath = true := by
  simp only [Config.recognises, Path.startsWith, List.isPrefixOf_iff_prefix,
    Path.components_join_ofNames h.root_ne_nil (Tree.plain_of_node? h.directory),
    Path.components_join_ofNames h.root_ne_nil (Tree.plain_of_node? hn)] at hr ⊢
  rw [List.map_append, ← List.append_assoc]
  exact hr.trans (List.prefix_append _ _)

theorem startsWith_eq {n : Name} {node : Node}
    (hn : d.tree.node? (r ++ (below ++ [n])) = some node) :
    (c.root.join (.ofNames (below ++ [n]))).startsWith c.testsPath = c.recognises below := by
  rw [Bool.eq_iff_iff]
  exact ⟨h.recognises_of_startsWith hn, fun hr => h.startsWith_of_recognises hr hn⟩

/-- **The files of the suite are sources**, where their path from the root can be looked up. -/
theorem mem_nimFiles {n : Name} (hname : Sources.isTestName n = true) {content : Content}
    {mode : Nat} (hn : d.tree.node? (r ++ (below ++ [n])) = some (.file content mode))
    (hfits : (c.root.join (.ofNames (below ++ [n]))).fits = true) :
    .ofNames (below ++ [n]) ∈ Sources.nimFiles d c.root := by
  have hplain := Tree.plain_of_node? hn
  have hslash := (Name.isPlain_iff.1 (hplain n (by simp))).2.2.2.1
  have habove : (c.root.descend below).fits = true := by
    have hchild : c.root.join (.ofNames (below ++ [n])) = (c.root.descend below).child n := by
      rw [Path.join_ofNames hplain (by simp), Path.descend, List.foldl_append]
      rfl
    have hle := Path.octetCount_join (p := c.root.descend below) (Path.isAbsolute_mk hslash)
    rw [hchild, Path.child] at hfits
    simp only [Path.fits, decide_eq_true_eq] at hfits ⊢
    omega
  rw [Sources.nimFiles, Path.mem_sort, List.mem_map]
  refine ⟨(below ++ [n], .file content mode), List.mem_filter.2 ⟨?_, ?_⟩, rfl⟩
  · rw [Disk.mem_filesBelow_iff h.root h.root_directory]
    exact ⟨hn, by simp, rfl, by simpa using habove⟩
  · simp [Sources.isSource, Name.extension?_of_isTestName hname, h.entered]

/-- The path from the root and that of the suite read the same file. -/
theorem readText_source {n : Name} {content : Content} {mode : Nat}
    (hn : d.tree.node? (r ++ (below ++ [n])) = some (.file content mode)) (hshort : Short [n])
    (hfits : (c.root.join (.ofNames (below ++ [n]))).fits = true) {q : Path}
    (hq : d.resolve q = .ok (r ++ (below ++ [n]))) :
    d.readText (c.root.join (.ofNames (below ++ [n]))) = d.readText q := by
  refine Disk.readText_congr (Eq.trans ?_ hq.symm)
  exact Disk.resolve_join_ofNames h.root h.root_directory (by simp) hn (by simp)
    (List.forall_mem_append.2 ⟨h.short, hshort⟩) hfits

/-- A source counts what its role says, if it can be read. -/
theorem ofSource_eq {n : Name} (hname : Sources.isTestName n = true) {node : Node}
    (hn : d.tree.node? (r ++ (below ++ [n])) = some node) :
    ofSource d c (.ofNames (below ++ [n])) =
      match d.readText (c.root.join (.ofNames (below ++ [n]))) with
      | .ok text => ofTestFile (c.recognises below) n text.toList
      | .error _ => ⟨0, 0⟩ := by
  have hprefix : ['t', '_'].isPrefixOf n = true := by
    simp only [Sources.isTestName, Bool.and_eq_true] at hname
    exact hname.1.1
  simp only [ofSource, h.startsWith_eq hn, Path.fileName?_ofNames (Tree.plain_of_node? hn),
    Option.getD_some, role, hprefix, if_true, ofTestFile]
  cases c.recognises below <;> cases mentionsTest n <;>
    cases d.readText (c.root.join (.ofNames (below ++ [n]))) <;> rfl

/-- Without a recognised tests directory there is no test block. -/
theorem testBlocks_ofSource (hr : c.recognises below = false) {source : Path}
    (hs : source ∈ Sources.nimFiles d c.root) : (ofSource d c source).testBlocks = 0 := by
  rw [Sources.nimFiles, Path.mem_sort, List.mem_map] at hs
  obtain ⟨⟨names, node⟩, hmem, rfl⟩ := hs
  rw [List.mem_filter, Disk.mem_filesBelow_iff h.root h.root_directory] at hmem
  have houtside : (c.root.join (.ofNames names)).startsWith c.testsPath = false := by
    rw [← Bool.not_eq_true]
    intro hstarts
    rw [h.recognises_of_startsWith hmem.1.1 hstarts] at hr
    cases hr
  simp only [ofSource, role, houtside]
  cases mentionsTest ((Path.ofNames names).fileName?.getD []) <;>
    cases d.readText (c.root.join (.ofNames names)) <;> rfl

end Layout

/-! ## The census of a project -/

/-- What the sources count is added up. -/
theorem sum_ofProject {count : Census → Nat} (hzero : count ⟨0, 0⟩ = 0)
    (hadd : ∀ a b, count (add a b) = count a + count b) (d : Disk) (c : Config) :
    count (ofProject d c) =
      ((Sources.nimFiles d c.root).map fun source => count (ofSource d c source)).sum := by
  unfold ofProject
  induction Sources.nimFiles d c.root with
  | nil => exact hzero
  | cons source more ih =>
    rw [List.map_cons, List.foldr_cons, hadd, ih]
    rfl

theorem testBlocks_ofProject (d : Disk) (c : Config) : (ofProject d c).testBlocks =
    ((Sources.nimFiles d c.root).map fun source => (ofSource d c source).testBlocks).sum :=
  sum_ofProject rfl (fun _ _ => rfl) d c

/-- The test blocks of a file of the suite. -/
def blocksIn (d : Disk) (p : Path) : Nat :=
  match d.readText p with
  | .ok text => TestSuite.countBlocks text.toList
  | .error _ => 0

theorem countSuiteBlocks_eq (d : Disk) (testsDir : Path) : TestSuite.countSuiteBlocks d testsDir =
    ((Sources.testFiles d testsDir).map (blocksIn d)).sum :=
  rfl

namespace Layout

variable {d : Disk} {c : Config} {r : Location} {below : List Name} (h : Layout d c r below)
include h

/-- The files of the suite are files of the tests directory, each once. -/
theorem entries : ∃ (names : List Name) (path : Name → Path), names.Nodup ∧
    (Sources.testFiles d c.testsPath).Perm (names.map path) ∧ ∀ n ∈ names,
      Sources.isTestName n = true ∧ Short [n] ∧ d.resolve (path n) = .ok (r ++ (below ++ [n])) ∧
        ∃ content mode, d.tree.node? (r ++ (below ++ [n])) = some (.file content mode) := by
  have hentries := Disk.exists_entries_of_filesIn h.tests h.directory Sources.isTestName
    fun n target => by simpa using h.regular (below ++ [n]) target
  simpa only [List.append_assoc, Sources.testFiles] using hentries

/-- A file of the suite is a file of the tests directory. -/
theorem exists_entry {q : Path} (hq : q ∈ Sources.testFiles d c.testsPath) :
    ∃ n, Sources.isTestName n = true ∧ Short [n] ∧ d.resolve q = .ok (r ++ (below ++ [n])) ∧
      ∃ content mode, d.tree.node? (r ++ (below ++ [n])) = some (.file content mode) := by
  obtain ⟨names, path, -, hperm, hentry⟩ := h.entries
  obtain ⟨n, hn, rfl⟩ := List.mem_map.1 (hperm.mem_iff.1 hq)
  exact ⟨n, hentry n hn⟩

theorem countSuiteBlocks_le (hr : c.recognises below = true)
    (hfits : ∀ n, Sources.isTestName n = true → d.tree.node? (r ++ (below ++ [n])) ≠ none →
      (c.root.join (.ofNames (below ++ [n]))).fits = true) :
    TestSuite.countSuiteBlocks d c.testsPath ≤ (ofProject d c).testBlocks := by
  obtain ⟨names, path, hnodup, hperm, hentry⟩ := h.entries
  have hsource (n : Name) (hn : n ∈ names) : .ofNames (below ++ [n]) ∈ Sources.nimFiles d c.root ∧
      (ofSource d c (.ofNames (below ++ [n]))).testBlocks = blocksIn d (path n) := by
    obtain ⟨hname, hshort, hres, content, mode, hnode⟩ := hentry n hn
    have hlookup := hfits n hname (by simp [hnode])
    refine ⟨h.mem_nimFiles hname hnode hlookup, ?_⟩
    rw [h.ofSource_eq hname hnode, h.readText_source hnode hshort hlookup hres, hr, blocksIn]
    cases d.readText (path n) <;> rfl
  have hdistinct : (names.map fun n => Path.ofNames (below ++ [n])).Nodup := by
    refine List.pairwise_map.2 (hnodup.imp_of_mem fun {a b} ha hb hne e => hne ?_)
    obtain ⟨-, -, -, _, _, hna⟩ := hentry a ha
    obtain ⟨-, -, -, _, _, hnb⟩ := hentry b hb
    have hparts := congrArg Path.parts e
    rw [Path.parts_ofNames (Tree.plain_of_node? hna), Path.parts_ofNames (Tree.plain_of_node? hnb)]
      at hparts
    simpa using hparts
  calc TestSuite.countSuiteBlocks d c.testsPath
      = ((names.map path).map (blocksIn d)).sum := by
        rw [countSuiteBlocks_eq]
        exact (hperm.map _).sum_nat
    _ = ((names.map fun n => Path.ofNames (below ++ [n])).map fun source =>
          (ofSource d c source).testBlocks).sum := by
        rw [List.map_map, List.map_map]
        exact congrArg List.sum (List.map_congr_left fun n hn => (hsource n hn).2.symm)
    _ ≤ (ofProject d c).testBlocks := by
        rw [testBlocks_ofProject]
        refine sum_map_le_of_subset hdistinct fun source hs => ?_
        obtain ⟨n, hn, rfl⟩ := List.mem_map.1 hs
        exact (hsource n hn).1

theorem testBlocks_eq_zero (hr : c.recognises below = false) : (ofProject d c).testBlocks = 0 := by
  rw [testBlocks_ofProject]
  refine List.sum_eq_zero fun blocks hb => ?_
  obtain ⟨source, hs, rfl⟩ := List.mem_map.1 hb
  exact h.testBlocks_ofSource hr hs

end Layout

/-- **The test files of the suite count their test blocks** and nothing else, if their directory is
recognised; the project then has at least the test blocks of the suite. Otherwise they count as
sources, and the project has no test blocks. A file counts nothing when its path from the root is
too long to be opened. -/
theorem counts_test_files {d : Disk} {c : Config} {r : Location} {below : List Name}
    (h : Layout d c r below) :
    (∀ q ∈ Sources.testFiles d c.testsPath, ∃ n,
      Sources.isTestName n = true ∧ d.resolve q = .ok (r ++ (below ++ [n])) ∧
        if (c.root.join (.ofNames (below ++ [n]))).fits then
          .ofNames (below ++ [n]) ∈ Sources.nimFiles d c.root ∧
            ∀ text, d.readText q = .ok text →
              ofSource d c (.ofNames (below ++ [n])) =
                ofTestFile (c.recognises below) n text.toList
        else ofSource d c (.ofNames (below ++ [n])) = ⟨0, 0⟩) ∧
      if c.recognises below then
        (∀ n, Sources.isTestName n = true → d.tree.node? (r ++ (below ++ [n])) ≠ none →
          (c.root.join (.ofNames (below ++ [n]))).fits = true) →
        TestSuite.countSuiteBlocks d c.testsPath ≤ (ofProject d c).testBlocks
      else (ofProject d c).testBlocks = 0 := by
  refine ⟨fun q hq => ?_, ?_⟩
  · obtain ⟨n, hname, hshort, hres, content, mode, hnode⟩ := h.exists_entry hq
    refine ⟨n, hname, hres, ?_⟩
    have hsource := h.ofSource_eq hname hnode
    split
    · next hfits =>
      refine ⟨h.mem_nimFiles hname hnode hfits, fun text htext => ?_⟩
      rw [hsource, h.readText_source hnode hshort hfits hres, htext]
    · next hfits =>
      obtain ⟨cause, hcause⟩ := Disk.exists_readText_error (Bool.not_eq_true _ ▸ hfits)
      rw [hsource, hcause]
  · cases hr : c.recognises below with
    | true => exact h.countSuiteBlocks_le hr
    | false => exact h.testBlocks_eq_zero hr

/-! ## A project with one test file -/

/-- A project with a test file that has one test block. -/
def suiteProject : Disk where
  tree :=
    { entries :=
        [(["proj".toList], .directory), (["proj".toList, "tests".toList], .directory),
          (["proj".toList, "tests".toList, "t_a.nim".toList],
            .file (.text "block:\n  discard\n") 0o644)]
      distinct := by decide
      rooted := by decide
      named := by decide }
  here := []

/-- The configuration of the project with this tests directory. -/
def suiteConfig (testsDir : Path) : Config :=
  { Config.standard none (.ofString "proj") with testsDir }

theorem layout_suiteProject (testsDir : Path)
    (h : suiteProject.resolve (suiteConfig testsDir).testsPath =
      .ok ["proj".toList, "tests".toList]) :
    Layout suiteProject (suiteConfig testsDir) ["proj".toList] ["tests".toList] where
  root := rfl
  tests := h
  directory := rfl
  regular names target := by
    have ht : suiteProject.tree.Linkless := by
      rw [Tree.linkless_iff]
      simp [suiteProject]
    exact ht _ target
  entered := rfl

/-- The tests directory of the project, given from the root, is recognised. -/
theorem counts_test_files_suiteProject :
    Layout suiteProject (suiteConfig (.ofString "tests")) ["proj".toList] ["tests".toList] ∧
      TestSuite.countSuiteBlocks suiteProject (suiteConfig (.ofString "tests")).testsPath ≤
        (ofProject suiteProject (suiteConfig (.ofString "tests"))).testBlocks := by
  have h := layout_suiteProject (.ofString "tests") rfl
  refine ⟨h, ?_⟩
  have hcounts := (counts_test_files h).2
  rw [if_pos (Config.recognises_of_names (Tree.plain_of_node? h.directory) rfl)] at hcounts
  refine hcounts fun n _ hn => ?_
  obtain ⟨node, hnode⟩ := Option.ne_none_iff_exists'.1 hn
  rw [Tree.node?_eq_some_iff (by simp)] at hnode
  obtain ⟨rfl, -⟩ : n = "t_a.nim".toList ∧ _ := by simpa [suiteProject] using hnode
  decide

/-- The test file of the project is found by an absolute path. -/
theorem testFiles_suiteProject : Sources.testFiles suiteProject (.ofString "/proj/tests") =
    [.ofString "/proj/tests/t_a.nim"] := by
  have hsearch : suiteProject.searchPath? (.ofString "/proj/tests") =
      some (.ofString "/proj/tests") := by decide
  have hres : suiteProject.resolve (.ofString "/proj/tests") =
      .ok ["proj".toList, "tests".toList] := rfl
  have hfiles : (((suiteProject.tree.names ["proj".toList, "tests".toList]).filter
      Sources.isTestName).map (Path.ofString "/proj/tests").child).filter suiteProject.isFile =
        [.ofString "/proj/tests/t_a.nim"] := by decide
  have hdir : suiteProject.tree.node? ["proj".toList, "tests".toList] = some .directory := rfl
  have hdot : (Path.ofString "/proj/tests").chars ≠ ['.'] := by decide
  simp only [Sources.testFiles, Disk.filesIn, hsearch, hres, hdir, if_neg hdot, if_true, hfiles]
  exact List.mergeSort_singleton _

/-- The suite of the project has a test block which the census does not count when the tests
directory is given by an absolute path, and the root by a relative one. -/
theorem census_misses_absolute_tests :
    Layout suiteProject (suiteConfig (.ofString "/proj/tests")) ["proj".toList] ["tests".toList] ∧
      TestSuite.countSuiteBlocks suiteProject
        (suiteConfig (.ofString "/proj/tests")).testsPath = 1 ∧
      (ofProject suiteProject (suiteConfig (.ofString "/proj/tests"))).testBlocks = 0 := by
  have h := layout_suiteProject (.ofString "/proj/tests") rfl
  refine ⟨h, ?_, ?_⟩
  · have hpath : (suiteConfig (.ofString "/proj/tests")).testsPath = .ofString "/proj/tests" := rfl
    rw [hpath, countSuiteBlocks_eq, testFiles_suiteProject]
    decide
  · exact h.testBlocks_eq_zero
      (Config.recognises_of_isAbsolute (Tree.plain_of_node? h.directory) rfl rfl)

end Census
end StatusBadges
