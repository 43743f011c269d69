import StatusBadges.Proofs.Sources

/-!
# The walk over the sources

The sources of a project are the files with the right extension below its root, except for those in
skipped directories (`nimFiles_exact`). A walk enters a directory by its path, which must not be too
long. The root is not skipped, whatever its name, and a file may have the name of a skipped
directory.
-/

namespace StatusBadges

namespace Tree

/-- The names lead down from a directory to a regular file with the extension of sources, and not
through a directory that is skipped. -/
structure HoldsSource (t : Tree) (root : Location) (names : List Name) : Prop where
  file : ∃ content mode, t.node? (root ++ names) = some (.file content mode)
  extended : ∃ above stem, stem ≠ [] ∧
    names = above ++ [stem ++ '.' :: Sources.sourceExtension]
  entered : ∀ n ∈ names.dropLast, String.ofList n ∉ Sources.skippedNames

theorem HoldsSource.ne_nil {t : Tree} {root : Location} {names : List Name}
    (h : t.HoldsSource root names) : names ≠ [] := by
  obtain ⟨above, stem, -, rfl⟩ := h.extended
  simp

theorem HoldsSource.exists_entry {t : Tree} {root : Location} {names : List Name}
    (h : t.HoldsSource root names) :
    ∃ content mode, (root ++ names, .file content mode) ∈ t.entries := by
  obtain ⟨content, mode, hnode⟩ := h.file
  exact ⟨content, mode, (node?_eq_some_iff (by simp [h.ne_nil])).1 hnode⟩

theorem HoldsSource.plain {t : Tree} {root : Location} {names : List Name}
    (h : t.HoldsSource root names) : Path.Plain names := by
  obtain ⟨content, mode, hnode⟩ := h.file
  exact plain_of_node? hnode

end Tree

/-- A walk from the path gets to where the last of the names is. -/
def Path.Enters (root : Path) (names : List Name) : Prop :=
  (root.descend names.dropLast).fits = true

theorem Path.enters_concat_iff {root : Path} (above : List Name) (n : Name) :
    root.Enters (above ++ [n]) ↔ (root.descend above).fits = true := by
  rw [Enters, List.dropLast_concat]

namespace Sources

theorem isSkipped_iff {n : Name} : isSkipped n = true ↔ String.ofList n ∈ skippedNames := by
  simp only [isSkipped, List.any_eq_true, decide_eq_true_eq]
  constructor
  · rintro ⟨s, hs, rfl⟩
    simpa using hs
  · exact fun h => ⟨_, h, by simp⟩

theorem isSource_iff {root : Path} {names : List Name} (hne : names ≠ []) :
    isSource root names = true ↔
      (∃ above stem, stem ≠ [] ∧ names = above ++ [stem ++ '.' :: sourceExtension]) ∧
        ∀ n ∈ names.dropLast, String.ofList n ∉ skippedNames := by
  obtain ⟨above, n, rfl⟩ : ∃ above n, names = above ++ [n] := by
    simpa using (List.eq_nil_or_concat names).resolve_left hne
  have hext : n.extension? = some sourceExtension ↔
      ∃ stem, stem ≠ [] ∧ n = stem ++ '.' :: sourceExtension := by
    rw [Name.extension?_eq_some_iff]
    simp only [show '.' ∉ sourceExtension by decide, not_false_eq_true, true_and]
  simp only [isSource, List.getLast?_concat, Option.some_or, Option.bind_some,
    List.dropLast_concat, Bool.and_eq_true, decide_eq_true_eq, hext, Bool.not_eq_true',
    List.any_eq_false, isSkipped_iff]
  refine and_congr_left fun _ => ?_
  constructor
  · rintro ⟨stem, hstem, rfl⟩
    exact ⟨above, stem, hstem, rfl⟩
  · rintro ⟨above', stem, hstem, e⟩
    exact ⟨stem, hstem, List.singleton_inj.1 (List.append_inj' e rfl).2⟩

/-- Sources are listed in the order of paths and each once. -/
theorem pairwise_nimFiles (d : Disk) (root : Path) :
    (nimFiles d root).Pairwise fun p q => p.le q = true ∧ p.components ≠ q.components := by
  have hnodup : ((sourceNames d root).map fun names => (Path.ofNames names).components).Nodup :=
    List.Nodup.map_on (fun a ha b hb e => Path.ofNames_injective (plain_of_mem_sourceNames ha)
      (plain_of_mem_sourceNames hb) e) (nodup_sourceNames d root)
  rw [nimFiles_eq_sort]
  refine (Path.pairwise_sort _).and (List.pairwise_map.1 ?_)
  refine ((List.mergeSort_perm _ _).map Path.components).nodup_iff.2 ?_
  rwa [List.map_map]

section Directory

variable {d : Disk} {root : Path} {r : Location} (hroot : d.resolve root = .ok r)
  (hr : d.tree.node? r = some .directory)
include hroot hr

theorem mem_sourceNames_iff {names : List Name} :
    names ∈ sourceNames d root ↔ d.tree.HoldsSource r names ∧ root.Enters names := by
  simp only [sourceNames, List.mem_filter, List.mem_map, Prod.exists, exists_and_right,
    exists_eq_right, Disk.mem_filesBelow_iff hroot hr]
  constructor
  · rintro ⟨⟨n, hnode, hne, hfile, hfits⟩, hsource⟩
    obtain ⟨hext, hentered⟩ := (isSource_iff hne).1 hsource
    cases n with
    | file content mode => exact ⟨⟨⟨content, mode, hnode⟩, hext, hentered⟩, hfits⟩
    | directory => cases hfile
    | link target => cases hfile
  · rintro ⟨h, hfits⟩
    obtain ⟨content, mode, hnode⟩ := h.file
    exact ⟨⟨_, hnode, h.ne_nil, rfl, hfits⟩, (isSource_iff h.ne_nil).2 ⟨h.extended, h.entered⟩⟩

theorem mem_nimFiles_iff (x : Path) : x ∈ nimFiles d root ↔
    ∃ names, x = .ofNames names ∧ d.tree.HoldsSource r names ∧ root.Enters names := by
  simp only [nimFiles_eq_sort, Path.mem_sort, List.mem_map, mem_sourceNames_iff hroot hr]
  constructor
  · rintro ⟨names, h, rfl⟩
    exact ⟨names, rfl, h⟩
  · rintro ⟨names, rfl, h⟩
    exact ⟨names, h, rfl⟩

end Directory

end Sources
end StatusBadges
