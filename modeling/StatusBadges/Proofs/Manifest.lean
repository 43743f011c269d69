import StatusBadges.Manifest
import StatusBadges.Proofs.Storage.Finding
import StatusBadges.Sources

/-!
# Manifests and test files of a directory

The manifest of a project and the test files of a suite are found by their names in a directory.
Whatever characters the path of the directory holds and however it is written, they are all found,
links followed and in the order of their names (`finds_manifest_and_tests`). The one exception is a
path such as `./` that is relative and has, behind dots in front, an empty part: by such a path the
working directory has no manifest and no test files (`misses_manifest`).
-/

namespace StatusBadges

theorem Manifest.isManifestName_iff {n : Name} :
    isManifestName n = true ↔ ".nimble".toList <:+ n := by
  simp [isManifestName, List.isSuffixOf_iff_suffix]

/-- What begins and ends as the name of a test file is long enough to be one. -/
theorem Sources.isTestName_iff {n : Name} :
    isTestName n = true ↔ "t_".toList <+: n ∧ ".nim".toList <:+ n := by
  simp only [isTestName, Bool.and_eq_true, List.isPrefixOf_iff_prefix,
    List.isSuffixOf_iff_suffix, decide_eq_true_eq]
  refine ⟨fun h => h.1, fun h => ⟨h, ?_⟩⟩
  obtain ⟨⟨behind, rfl⟩, front, hfront⟩ := h
  -- The dot of the ending is none of the first two characters.
  rcases front with _ | ⟨a, _ | ⟨b, more⟩⟩
  · cases hfront
  · cases hfront
  · have hlen := congrArg List.length hfront
    simp only [List.length_append, List.length_cons] at hlen ⊢
    simp at hlen ⊢
    omega

/-- **A directory is searched for manifests and test files by every path to it**, unless the path is
relative and has an empty part behind dots in front. Then nothing is found. -/
theorem finds_manifest_and_tests {d : Disk} (hs : d.Settled) {p : Path} {l : Location}
    (hp : d.resolve p = .ok l) (hl : d.tree.node? l = some .directory) :
    if p.stumbles then Manifest.find? d p = none ∧ Sources.testFiles d p = []
    else ∃ q manifests tests, d.resolve q = .ok l ∧
      d.Finds q l (".nimble".toList <:+ ·) manifests ∧
      d.Finds q l (fun n => "t_".toList <+: n ∧ ".nim".toList <:+ n) tests ∧
      Manifest.find? d p = manifests.head?.map (Disk.entry q) ∧
      Sources.testFiles d p = tests.map (Disk.entry q) := by
  have hsearch := Disk.searchPath?_cases hs hp hl
  split
  · next hstumbles =>
    rw [if_pos hstumbles] at hsearch
    have hnone (wanted : Name → Bool) : d.filesIn p wanted = [] := by
      rw [Disk.filesIn, hsearch]
    exact ⟨by rw [Manifest.find?, hnone]; rfl, hnone _⟩
  · next hstumbles =>
    rw [if_neg hstumbles] at hsearch
    obtain ⟨q, hsearch, hq⟩ := hsearch
    obtain ⟨manifests, hmanifests, hfind⟩ :=
      Disk.exists_finds hq hl Manifest.isManifestName hsearch
    obtain ⟨tests, htests, hfiles⟩ :=
      Disk.exists_finds hq hl Sources.isTestName hsearch
    refine ⟨q, manifests, tests, hq, hmanifests.congr fun _ => Manifest.isManifestName_iff,
      htests.congr fun _ => Sources.isTestName_iff, ?_, hfiles⟩
    rw [Manifest.find?, hfind, List.head?_map]

/-- A project with a manifest, seen from its root. -/
def packagedProject : Disk where
  tree :=
    { entries :=
        [(["p".toList], .directory),
          (["p".toList, "x.nimble".toList], .file (.text "version = \"1.2.3\"\n") 0o644)]
      distinct := by decide
      rooted := by decide
      named := by decide }
  here := ["p".toList]

/-- By a dot the manifest of the project is found. -/
theorem finds_manifest_packagedProject :
    packagedProject.Settled ∧ packagedProject.resolve (.ofString ".") = .ok ["p".toList] ∧
      packagedProject.tree.node? ["p".toList] = some .directory ∧
      (Path.ofString ".").stumbles = false ∧
      ∃ q manifests tests, packagedProject.resolve q = .ok ["p".toList] ∧
        packagedProject.Finds q ["p".toList] (".nimble".toList <:+ ·) manifests ∧
        packagedProject.Finds q ["p".toList]
          (fun n => "t_".toList <+: n ∧ ".nim".toList <:+ n) tests ∧
        Manifest.find? packagedProject (.ofString ".") =
          manifests.head?.map (Disk.entry q) ∧
        Sources.testFiles packagedProject (.ofString ".") = tests.map (Disk.entry q) := by
  have hs : packagedProject.Settled := Disk.settled_of_node? rfl
  have hp : packagedProject.resolve (.ofString ".") = .ok ["p".toList] := by decide
  have hl : packagedProject.tree.node? ["p".toList] = some .directory := by decide
  have hstumbles : (Path.ofString ".").stumbles = false := by decide
  have h := finds_manifest_and_tests hs hp hl
  rw [hstumbles, if_neg (by simp)] at h
  exact ⟨hs, hp, hl, hstumbles, h⟩

/-- By a dot and a slash the manifest is missed, although the path is that of its directory. -/
theorem misses_manifest :
    packagedProject.Settled ∧ packagedProject.resolve (.ofString "./") = .ok ["p".toList] ∧
      packagedProject.tree.node? ["p".toList] = some .directory ∧
      packagedProject.tree.HoldsFile ["p".toList] "x.nimble".toList ∧
      ".nimble".toList <:+ "x.nimble".toList ∧
      Manifest.find? packagedProject (.ofString ".") = some (.ofString "x.nimble") ∧
      Manifest.find? packagedProject (.ofString "./") = none ∧
      Manifest.projectVersion packagedProject (.ofString "./") = Manifest.defaultVersion := by
  refine ⟨Disk.settled_of_node? rfl, by decide, by decide, .file _ _ rfl, by decide, ?_, ?_, ?_⟩
  · decide +kernel
  · decide
  · decide

end StatusBadges
