import StatusBadges.Proofs.Storage.Fading
import StatusBadges.Proofs.Storage.Search

/-!
# What removing takes from a disk without links

Each removal takes exactly what it looks for: the wanted files below a directory, each counted once
(`takes_removeFilesBelow`), the file of a name in a directory (`removeFile_child`,
`fileIn_of_removeFile`), and a directory with all it holds (`removeAll_of_directory`). A directory
itself goes only by a path that ends with a name.
-/

namespace StatusBadges

/-- The last part of the path is a name or goes up. -/
def Path.Named (p : Path) : Prop := ∃ before n, p.parts = before ++ [n] ∧ n ≠ ['.']

namespace Tree

theorem restrict_eq_self {t : Tree} {keep : Location × Node → Bool} {h}
    (hall : ∀ e ∈ t.entries, keep e = true) : t.restrict keep h = t := by
  cases t
  simp only [restrict, mk.injEq, List.filter_eq_self]
  exact hall

theorem node?_clear {t : Tree} {r l : Location} :
    (t.clear r).node? l = if r <+: l ∧ l ≠ r then none else t.node? l := by
  by_cases hl : l = []
  · subst hl
    have hroot : ¬ (r <+: [] ∧ [] ≠ r) := fun ⟨hpre, hne⟩ => hne (List.prefix_nil.1 hpre).symm
    rw [if_neg hroot, node?_nil, node?_nil]
  · rw [clear, node?_restrict hl]
    simp only [← List.isPrefixOf_iff_prefix]
    cases t.node? l with
    | none => simp
    | some n => by_cases hpre : r.isPrefixOf l = true <;> by_cases e : l = r <;> simp [hpre, e]

theorem node?_prune {t : Tree} {r l : Location} (hr : r ≠ []) :
    (t.prune r).node? l = if r <+: l then none else t.node? l := by
  by_cases hl : l = []
  · subst hl
    have hroot : ¬ r <+: [] := fun hpre => hr (List.prefix_nil.1 hpre)
    rw [if_neg hroot, node?_nil, node?_nil]
  · rw [prune, node?_restrict hl]
    simp only [← List.isPrefixOf_iff_prefix]
    cases t.node? l with
    | none => simp
    | some n => by_cases hpre : r.isPrefixOf l = true <;> simp [hpre]

theorem names_clear (t : Tree) (l : Location) : (t.clear l).names l = [] := by
  refine List.eq_nil_iff_forall_not_mem.2 fun x hx => ?_
  obtain ⟨n, hn⟩ := mem_names_iff.1 hx
  rw [node?_clear, if_pos ⟨List.prefix_append l [x], by simp⟩] at hn
  cases hn

theorem mem_map_filter_iff {t : Tree} {hit : Location × Node → Bool} {l : Location} :
    l ∈ (t.entries.filter hit).map (·.1) ↔
      ∃ n, l ≠ [] ∧ t.node? l = some n ∧ hit (l, n) = true := by
  simp only [List.mem_map, List.mem_filter]
  constructor
  · rintro ⟨e, ⟨hmem, hhit⟩, rfl⟩
    have hl := (t.rooted e hmem).1
    exact ⟨e.2, hl, (node?_eq_some_iff hl).2 hmem, hhit⟩
  · rintro ⟨n, hl, hn, hhit⟩
    exact ⟨(l, n), ⟨(node?_eq_some_iff hl).1 hn, hhit⟩, rfl⟩

theorem ne_nil_of_file {t : Tree} {l : Location} {content : Content} {mode : Nat}
    (h : t.node? l = some (.file content mode)) : l ≠ [] := by
  rintro rfl
  cases h

end Tree

namespace Disk

theorem Settled.withTree_self {d : Disk} (hs : d.Settled) : d.withTree d.tree = d :=
  congrArg (Disk.mk d.tree) hs

/-! ## Files below a directory -/

theorem strips_removeFilesBelow {d : Disk} (hs : d.Settled) (p : Path)
    (wanted : Name → Node → Bool) :
    d.Strips (d.WantedBelow p wanted) (d.removeFilesBelow p wanted).2 := by
  rcases removeFilesBelow_cases d p wanted with ⟨e, hno⟩ | ⟨t, e, hdel, hlost⟩
  · rw [e]
    exact .refl hs hno
  · rw [e]
    refine ⟨.withTree d hdel.shrinks, fun {l} hl => ?_, fun {l} hl => ?_⟩
    · obtain ⟨⟨content, mode, hf⟩, hno⟩ := (hlost l).2 hl
      exact Decidable.byContradiction fun hleft =>
        hno content mode (hdel.shrinks.node?_eq_some hf hleft)
    · cases hn : d.tree.node? l with
      | none => exact hdel.shrinks.node?_eq_none hn
      | some n =>
        exact hdel.shrinks.node?_eq_some hn fun hnone => hl (hdel.allowed hn hnone).2

/-- The removal of the wanted files counts each of them once. -/
theorem exists_counted_removeFilesBelow (d : Disk) (p : Path) (wanted : Name → Node → Bool) :
    ∃ lost : List Location, lost.Nodup ∧ (∀ l, l ∈ lost ↔ d.WantedBelow p wanted l) ∧
      (d.removeFilesBelow p wanted).1 = lost.length := by
  unfold removeFilesBelow
  cases hr : d.resolve p with
  | error cause =>
    refine ⟨[], List.nodup_nil, fun l => ?_, rfl⟩
    simp [WantedBelow, hr]
  | ok r =>
    by_cases hdir : d.tree.node? r = some .directory
    · simp only [if_pos hdir]
      refine ⟨List.map (·.1) _, d.tree.distinct.sublist (List.filter_sublist.map _),
        fun l => Tree.mem_map_filter_iff.trans ?_, (List.length_map _).symm⟩
      simp only [Bool.and_eq_true, bne_iff_ne, List.isPrefixOf_iff_prefix]
      constructor
      · rintro ⟨n, -, hn, ⟨⟨⟨hpre, hne⟩, hfile⟩, hwanted⟩, hfits⟩
        cases n with
        | file content mode =>
          exact ⟨r, content, mode, hr, hdir, hpre, hne, hn, hwanted, hfits⟩
        | directory => cases hfile
        | link target => cases hfile
      · rintro ⟨r', content, mode, hr', -, hpre, hne, hf, hwanted, hfits⟩
        rw [hr] at hr'
        cases hr'
        exact ⟨_, Tree.ne_nil_of_file hf, hf, ⟨⟨⟨hpre, hne⟩, rfl⟩, hwanted⟩, hfits⟩
    · refine ⟨[], List.nodup_nil, fun l => ?_, by simp only [if_neg hdir]; rfl⟩
      simp [WantedBelow, hr, hdir]

theorem takes_removeFilesBelow {d : Disk} (hs : d.Settled) {p : Path} (hup : ['.', '.'] ∉ p.parts)
    (wanted : Name → Node → Bool) :
    d.Takes (fun d => d.WantedBelow p wanted) (d.removeFilesBelow p wanted) := by
  obtain ⟨lost, hnodup, hmem, hcount⟩ := exists_counted_removeFilesBelow d p wanted
  have h := Takes.of_strips (.wantedBelow hup wanted) (strips_removeFilesBelow hs p wanted)
    hnodup hmem
  rwa [← hcount] at h

/-! ## Files in a directory -/

/-- A file goes by its name behind the path of its directory. -/
theorem removeFile_child {d : Disk} (ht : d.tree.Linkless) {p : Path} {r : Location} {n : Name}
    (hp : d.tree.Leads d.here p r) (hlen : ¬ maxNameOctets < octetCount n) {content : Content}
    {mode : Nat} (hf : d.tree.node? (r ++ [n]) = some (.file content mode))
    (hfits : (p.child n).fits = true) :
    d.removeFile (p.child n) = .ok (d.withTree (d.tree.prune (r ++ [n]))) := by
  have hn := Tree.plain_of_node? hf n List.mem_cons_self
  obtain ⟨hne, hdot, hup, hslash, -⟩ := Name.isPlain_iff.1 hn
  have hdir := Tree.directory_above hf (List.prefix_append r [n]) (by simp)
  have hslot := Linkless.slot_child ht hp hdir hn hlen hfits
  unfold removeFile
  simp [hslot, isDots, hdot, hup, hf, Path.endsWithSlash_child hslash hne]

/-- What goes by a name behind the path of a directory is a file in it. -/
theorem fileIn_of_removeFile {d d' : Disk} (ht : d.tree.Linkless) {p : Path} (hp : p.chars ≠ [])
    {n : Name} (hn : n.isPlain = true) (h : d.removeFile (p.child n) = .ok d') :
    ∃ l, d.FileIn p n l ∧ d' = d.withTree (d.tree.prune l) := by
  obtain ⟨hne, -, -, hslash, -⟩ := Name.isPlain_iff.1 hn
  obtain ⟨directory, name, node, hslot, hdots, -, hnode, hdir, rfl⟩ := removeFile_eq_ok h
  obtain ⟨before, hparts, hcheck, hfollow, -⟩ := slot_eq_ok hslot
  rw [Path.parts_child hslash hne] at hparts
  obtain ⟨rfl, hlast⟩ := List.append_inj' hparts rfl
  obtain rfl := List.singleton_inj.1 hlast
  have hstart : d.start (p.child n) = d.start p := by
    simp only [start, Tree.startOf, Path.isAbsolute_child hslash]
  rw [hstart] at hfollow
  obtain ⟨j, hj⟩ := Tree.follow_eq_ok_iff.1 hfollow
  have hcheckp := checkText_of_sublist (Path.sublist_chars_join (Path.isAbsolute_mk hslash)) hp
    hcheck
  obtain ⟨-, -, hfits⟩ := checkText_iff.1 hcheck
  refine ⟨_, ?_, rfl⟩
  cases node with
  | file content mode =>
    exact ⟨directory, content, mode, resolve_of_parts hcheckp hj, rfl, hnode, hfits⟩
  | directory => exact absurd rfl hdir
  | link target => exact absurd hnode (ht _ _)

theorem FileIn.unique {d : Disk} {p : Path} {n : Name} {l l' : Location} (h : d.FileIn p n l)
    (h' : d.FileIn p n l') : l = l' := by
  obtain ⟨r, -, -, hr, rfl, -⟩ := h
  obtain ⟨r', -, -, hr', rfl, -⟩ := h'
  rw [hr] at hr'
  rw [Except.ok.inj hr']

/-- A file that is pruned is gone, and nothing else. -/
theorem strips_prune_file {d : Disk} {l : Location} {content : Content} {mode : Nat}
    (hf : d.tree.node? l = some (.file content mode)) :
    d.Strips (· = l) (d.withTree (d.tree.prune l)) := by
  have hdel := deletes_prune_leaf hf (by simp)
  refine ⟨.withTree d hdel.shrinks, fun {k} hk => ?_, fun {k} hk => ?_⟩
  · subst hk
    exact (Tree.node?_prune (Tree.ne_nil_of_file hf)).trans (if_pos List.prefix_rfl)
  · cases hn : d.tree.node? k with
    | none => exact hdel.shrinks.node?_eq_none hn
    | some n => exact hdel.shrinks.node?_eq_some hn fun hnone => hk (hdel.allowed hn hnone)

/-! ## Directories -/

/-- An empty directory goes by its slot. -/
theorem removeDirectory_of_slot {d : Disk} {p : Path} {k : Location} {n : Name}
    (hslot : d.slot p = .ok (k, some n)) (hdot : n ≠ ['.']) (hup : n ≠ ['.', '.'])
    (hdir : d.tree.node? (k ++ [n]) = some .directory) (hempty : d.tree.names (k ++ [n]) = []) :
    d.removeDirectory p = .ok (d.withTree (d.tree.prune (k ++ [n]))) := by
  unfold removeDirectory
  simp [hslot, hdot, hup, hdir, hempty]

section Directory

variable {d : Disk} {p : Path} {r : Location} (hp : d.resolve p = .ok r)
  (hr : d.tree.found? r = some .directory)
include hp hr

/-- A path with a name at its end leads to the directory of that name. -/
theorem slot_of_named (ht : d.tree.Linkless) {before : List Name} {n : Name}
    (hparts : p.parts = before ++ [n]) (hdot : n ≠ ['.']) (hup : n ≠ ['.', '.']) :
    ∃ k, r = k ++ [n] ∧ d.tree.node? (k ++ [n]) = some .directory ∧
      d.slot p = .ok (k, some n) := by
  obtain ⟨j, hj⟩ := followWithin_parts hp hr
  rw [hparts, List.append_assoc] at hj
  obtain ⟨k, i, hk⟩ := Tree.exists_followWithin_append hj (by simp)
  rw [Tree.followWithin_append hk] at hj
  have hreach : d.tree.Reaches k ([n] ++ [['.']]) r := ⟨i, j, hj⟩
  obtain ⟨rfl, hlen⟩ := Tree.eq_concat_of_walk hdot hup (ht.reaches_iff.1 hreach.of_dot)
  have hne : n ≠ [] := by
    rintro rfl
    exact p.nil_notMem_parts (by simp [hparts])
  have hdir : d.tree.node? (k ++ [n]) = some .directory := by
    simpa [Tree.found?, Location.isRemoved, hne] using hr
  have habove := Tree.directory_above hdir (List.prefix_append k [n]) (by simp)
  have hfollow : d.tree.follow (d.start p) (before ++ [['.']]) = .ok k :=
    Tree.follow_eq_ok_iff.2 ⟨i, hk⟩
  refine ⟨k, rfl, hdir, ?_⟩
  unfold slot
  rw [(resolve_eq_ok.1 hp).1, hparts, List.dropLast_concat, List.getLast?_concat, hfollow]
  simp [bind, Except.bind, isDots, hdot, hup, habove, hlen]

/-- No directory is removed by a path without a name at its end. -/
theorem removeDirectory_of_unnamed (hn : ¬ p.Named) :
    ∃ cause, cause ≠ .notFound ∧ d.removeDirectory p = .error cause := by
  obtain ⟨j, hj⟩ := followWithin_parts hp hr
  have hcheck := (resolve_eq_ok.1 hp).1
  rcases List.eq_nil_or_concat p.parts with hparts | ⟨before, n, hparts⟩
  · rw [hparts, List.nil_append] at hj
    have hfollow : d.tree.follow (d.start p) [['.']] = .ok r :=
      Tree.follow_eq_ok_iff.2 ⟨j, hj⟩
    refine ⟨.busy, by simp, ?_⟩
    simp [removeDirectory, slot, hcheck, hparts, hfollow, bind, Except.bind]
  · rw [List.concat_eq_append] at hparts
    have hdot : n = ['.'] := Decidable.byContradiction fun hdot => hn ⟨before, n, hparts, hdot⟩
    subst hdot
    rw [hparts, List.append_assoc] at hj
    obtain ⟨k, i, hk⟩ := Tree.exists_followWithin_append hj (by simp)
    have hfollow : d.tree.follow (d.start p) (before ++ [['.']]) = .ok k :=
      Tree.follow_eq_ok_iff.2 ⟨i, hk⟩
    refine ⟨.invalidArgument, by simp, ?_⟩
    simp [removeDirectory, slot, hcheck, hparts, hfollow, isDots, bind, Except.bind]

omit hp hr

theorem node?_ne_link (ht : d.tree.Linkless) {target : Path} : d.node? p ≠ some (.link target) := by
  intro h
  unfold Disk.node? Tree.found? at h
  split at h
  · split at h
    · cases h
    · exact ht _ _ h
  · cases h

theorem linkNode?_ne_link (ht : d.tree.Linkless) {target : Path} :
    d.linkNode? p ≠ some (.link target) := by
  intro h
  unfold linkNode? at h
  split at h
  · exact node?_ne_link ht h
  · split at h
    · split at h
      · exact node?_ne_link ht h
      · exact ht _ _ h
    · exact node?_ne_link ht h
    · cases h

theorem strips_clear (d : Disk) (r : Location) :
    d.Strips (fun l => r <+: l ∧ l ≠ r) (d.withTree (d.tree.clear r)) :=
  ⟨.withTree d (Tree.shrinks_restrict _ _ _), fun hl => Tree.node?_clear.trans (if_pos hl),
    fun hl => Tree.node?_clear.trans (if_neg hl)⟩

include hp hr

/-- A directory of the tree goes with all it holds, when the path ends with its name. Else it is
left empty. -/
theorem removeAll_of_node? (ht : d.tree.Linkless) (hup : ['.', '.'] ∉ p.parts)
    (hdir : d.tree.node? r = some .directory) :
    d.Strips (fun l => r <+: l ∧ (l = r → p.Named)) (d.removeAll p).2 ∧
      ((d.removeAll p).1 = .ok () ↔ p.Named) := by
  have hlink : d.linkNode? p = some .directory := by
    obtain ⟨n, hn, hfile⟩ := linkNode?_of_directory hp hdir
    cases n with
    | directory => exact hn
    | file content mode => cases hfile
    | link target => exact absurd hn (linkNode?_ne_link ht)
  have hclear := strips_clear d r
  have hdir' : (d.withTree (d.tree.clear r)).tree.node? r = some .directory :=
    (hclear.stays (by simp)).trans hdir
  have hp' := (hclear.fades.resolve_iff ht hup hdir').2 hp
  have hr' := Tree.found?_of_node? hdir'
  unfold removeAll
  simp only [hlink, hp]
  by_cases hn : p.Named
  · obtain ⟨before, n, hparts, hdot⟩ := id hn
    have hup' : n ≠ ['.', '.'] := by
      rintro rfl
      exact hup (by simp [hparts])
    obtain ⟨k, rfl, -, hslot⟩ :=
      slot_of_named hp' hr' (hclear.fades.linkless ht) hparts hdot hup'
    have hremoved := removeDirectory_of_slot hslot hdot hup' hdir' (Tree.names_clear d.tree _)
    rw [hremoved]
    refine ⟨⟨hclear.fades.trans (.withTree _ (Tree.shrinks_restrict _ _ _)), fun hl => ?_,
      fun {l} hl => ?_⟩, iff_of_true rfl hn⟩
    · exact (Tree.node?_prune (by simp)).trans (if_pos hl.1)
    · have hpre : ¬ k ++ [n] <+: l := fun hpre => hl ⟨hpre, fun _ => hn⟩
      exact (Tree.node?_prune (by simp)).trans
        ((if_neg hpre).trans (hclear.stays fun hl => hpre hl.1))
  · obtain ⟨cause, hcause, herror⟩ := removeDirectory_of_unnamed hp' hr' hn
    rw [herror]
    simp only [if_neg hcause]
    exact ⟨hclear.congr fun l => and_congr_right fun _ => ⟨fun hne e => absurd e hne,
      fun himp e => hn (himp e)⟩, by simp [hn]⟩

/-- **Removing a directory takes it with all it holds, and it itself only by a path with a name at
its end**. From a working directory that was removed nothing goes. -/
theorem removeAll_of_directory (hs : d.Settled) (ht : d.tree.Linkless)
    (hup : ['.', '.'] ∉ p.parts) :
    d.Strips (fun l => d.tree.node? r = some .directory ∧ r <+: l ∧ (l = r → p.Named))
      (d.removeAll p).2 ∧
      ((d.removeAll p).1 = .ok () ↔ p.Named ∧ d.tree.node? r = some .directory) := by
  by_cases hdir : d.tree.node? r = some .directory
  · obtain ⟨hstrips, hdone⟩ := removeAll_of_node? hp hr ht hup hdir
    exact ⟨hstrips.congr fun l => by simp [hdir], by simp [hdone, hdir]⟩
  · have hn : ¬ p.Named := by
      rintro ⟨before, n, hparts, hdot⟩
      have hup' : n ≠ ['.', '.'] := by
        rintro rfl
        exact hup (by simp [hparts])
      obtain ⟨k, rfl, hnode, -⟩ := slot_of_named hp hr ht hparts hdot hup'
      exact hdir hnode
    have hclear : d.withTree (d.tree.clear r) = d := by
      have hall : ∀ e ∈ d.tree.entries, (!r.isPrefixOf e.1 || decide (e.1 = r)) = true := by
        intro e he
        by_cases hpre : r <+: e.1
        · by_cases heq : e.1 = r
          · simp [heq]
          · have hnode := (Tree.node?_eq_some_iff (d.tree.rooted e he).1).2 he
            exact absurd (Tree.directory_above hnode hpre (Ne.symm heq)) hdir
        · rw [← List.isPrefixOf_iff_prefix] at hpre
          simp [hpre]
      rw [Tree.clear, Tree.restrict_eq_self hall, hs.withTree_self]
    obtain ⟨cause, hcause, herror⟩ := removeDirectory_of_unnamed hp hr hn
    have hnothing : (d.removeAll p).2 = d ∧ (d.removeAll p).1 ≠ .ok () := by
      unfold removeAll
      cases hl : d.linkNode? p with
      | none => exact ⟨rfl, by simp⟩
      | some node =>
        cases node with
        | file content mode => exact ⟨rfl, by simp⟩
        | link target => exact absurd hl (linkNode?_ne_link ht)
        | directory => simp [hp, hclear, herror, hcause]
    rw [hnothing.1]
    exact ⟨.refl hs fun l hl => hdir hl.1, iff_of_false hnothing.2 fun h => hn h.1⟩

end Directory

end Disk
end StatusBadges
