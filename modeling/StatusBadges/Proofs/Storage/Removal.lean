import StatusBadges.Proofs.Command.History
import StatusBadges.Proofs.Storage.Writing

/-!
# What removing deletes

Removing lets a tree shrink: what is left is what it was (`Tree.Shrinks`). `Disk.Deletes` says which
nodes went, and has one law for each way to remove: the wanted files below a directory, which are
deleted exactly (`removeFilesBelow_cases`), the entry of a path (`deletes_removeFile`), and a
directory with all it holds (`deletes_removeAll`). `Tree.Loses` tells the files among these nodes
(`Deletes.of_loses`).
-/

namespace StatusBadges

namespace Tree

/-! ## Nodes that are left -/

/-- What is left in the other tree is what it was. -/
def Shrinks (t u : Tree) : Prop := ∀ l n, u.node? l = some n → t.node? l = some n

namespace Shrinks

theorem refl (t : Tree) : Shrinks t t := fun _ _ h => h

theorem trans {t u v : Tree} (h : Shrinks t u) (h' : Shrinks u v) : Shrinks t v :=
  fun l n hn => h l n (h' l n hn)

end Shrinks

theorem shrinks_restrict (t : Tree) (keep : Location × Node → Bool) (h) :
    Shrinks t (t.restrict keep h) := by
  intro l n hn
  by_cases hl : l = []
  · rw [hl, node?_nil] at hn ⊢
    exact hn
  · rw [node?_restrict hl] at hn
    exact (Option.filter_eq_some_iff.1 hn).1

/-- What is not kept is gone, and nothing else. -/
theorem node?_restrict_eq_none {t : Tree} {keep : Location × Node → Bool} {h} {l : Location}
    {n : Node} (hn : t.node? l = some n) :
    (t.restrict keep h).node? l = none ↔ l ≠ [] ∧ keep (l, n) = false := by
  by_cases hl : l = []
  · simp [hl]
  · simp [node?_restrict hl, hn, hl]

theorem node?_removeLeaves_eq_none {t : Tree} {p : Location → Node → Bool} {l : Location}
    {n : Node} (hn : t.node? l = some n) :
    (t.removeLeaves p).node? l = none ↔ n ≠ .directory ∧ p l n = true := by
  have hroot : n ≠ .directory → l ≠ [] := by
    rintro hdir rfl
    rw [node?_nil] at hn
    exact hdir (Option.some.inj hn).symm
  unfold removeLeaves
  rw [node?_restrict_eq_none hn]
  simp only [Bool.or_eq_false_iff, decide_eq_false_iff_not, Bool.not_eq_false']
  exact and_iff_right_of_imp fun h => hroot h.1

theorem removeLeaves_eq_self {t : Tree} {p : Location → Node → Bool}
    (h : ∀ e ∈ t.entries, p e.1 e.2 = false) : t.removeLeaves p = t := by
  have hall : ∀ e ∈ t.entries, (decide (e.2 = Node.directory) || !p e.1 e.2) = true := by
    intro e he
    rw [h e he, Bool.not_false, Bool.or_true]
  cases t
  simp only [removeLeaves, restrict, Tree.mk.injEq]
  exact List.filter_eq_self.2 hall

/-! ## Lost files -/

/-- There is a regular file at a location, and none in the other tree. -/
def Loses (t u : Tree) (l : Location) : Prop :=
  (∃ c m, t.node? l = some (.file c m)) ∧ ∀ c m, u.node? l ≠ some (.file c m)

theorem Loses.not_self {t : Tree} {l : Location} : ¬ Loses t t l := by
  rintro ⟨⟨c, m, hf⟩, hno⟩
  exact hno c m hf

end Tree

namespace Disk

/-! ## Nodes that went -/

/-- A tree is that of a disk without some nodes, which were allowed to go. -/
structure Deletes (allowed : Location → Node → Prop) (d : Disk) (t : Tree) : Prop where
  shrinks : d.tree.Shrinks t
  allowed : ∀ {l n}, d.tree.node? l = some n → t.node? l = none → allowed l n

theorem Deletes.mono {allowed more : Location → Node → Prop} {d : Disk} {t : Tree}
    (h : Deletes allowed d t) (hm : ∀ l n, d.tree.node? l = some n → allowed l n → more l n) :
    Deletes more d t :=
  ⟨h.shrinks, fun hn hnone => hm _ _ hn (h.allowed hn hnone)⟩

/-- A file that is lost is one that was allowed to go. -/
theorem Deletes.of_loses {allowed : Location → Node → Prop} {d : Disk} {t : Tree} {l : Location}
    (h : Deletes allowed d t) (hl : d.tree.Loses t l) :
    ∃ c m, d.tree.node? l = some (.file c m) ∧ allowed l (.file c m) := by
  obtain ⟨⟨c, m, hf⟩, hno⟩ := hl
  refine ⟨c, m, hf, h.allowed hf ?_⟩
  cases ht : t.node? l with
  | none => rfl
  | some n =>
    have hn := h.shrinks l n ht
    rw [hf] at hn
    cases hn
    exact absurd ht (hno c m)

/-! ## Files below a directory -/

/-- A wanted regular file below the directory to which a path leads, not too far down. -/
def WantedBelow (d : Disk) (p : Path) (wanted : Name → Node → Bool) (l : Location) : Prop :=
  ∃ r content mode, d.resolve p = .ok r ∧ d.tree.node? r = some .directory ∧ r <+: l ∧ l ≠ r ∧
    d.tree.node? l = some (.file content mode) ∧
    wanted (l.getLast?.getD []) (.file content mode) = true ∧
    (p.descend (l.drop r.length)).fits = true

/-- **Removing the wanted files below a directory deletes exactly these**, and changes nothing where
the path leads to no directory. -/
theorem removeFilesBelow_cases (d : Disk) (p : Path) (wanted : Name → Node → Bool) :
    ((d.removeFilesBelow p wanted).2 = d ∧ ∀ l, ¬ d.WantedBelow p wanted l) ∨
      ∃ t, (d.removeFilesBelow p wanted).2 = d.withTree t ∧
        Deletes (fun l n => n.isFile = true ∧ d.WantedBelow p wanted l) d t ∧
        ∀ l, d.tree.Loses t l ↔ d.WantedBelow p wanted l := by
  unfold removeFilesBelow
  cases hr : d.resolve p with
  | error cause =>
    refine Or.inl ⟨rfl, ?_⟩
    rintro l ⟨r, c, m, h, -⟩
    rw [hr] at h
    cases h
  | ok r =>
    by_cases hdir : d.tree.node? r = some .directory
    · simp only [if_pos hdir]
      have hdel : Deletes (fun l n => n.isFile = true ∧ d.WantedBelow p wanted l) d
          (d.tree.removeLeaves fun l n => r.isPrefixOf l && l != r && n.isFile &&
            wanted (l.getLast?.getD []) n && (p.descend (l.drop r.length)).fits) := by
        refine ⟨Tree.shrinks_restrict _ _ _, fun {l n} hn hnone => ?_⟩
        obtain ⟨-, hgone⟩ := (Tree.node?_removeLeaves_eq_none hn).1 hnone
        simp only [Bool.and_eq_true, bne_iff_ne, ne_eq, List.isPrefixOf_iff_prefix] at hgone
        obtain ⟨⟨⟨⟨hpre, hne⟩, hfile⟩, hwanted⟩, hfits⟩ := hgone
        cases n with
        | file content mode =>
          exact ⟨hfile, r, content, mode, hr, hdir, hpre, hne, hn, hwanted, hfits⟩
        | directory => cases hfile
        | link target => cases hfile
      refine Or.inr ⟨_, rfl, hdel, fun l => ⟨fun h => ?_, ?_⟩⟩
      · obtain ⟨c, m, -, -, hwanted⟩ := hdel.of_loses h
        exact hwanted
      · rintro ⟨_, c, m, h, -, hpre, hne, hf, hw, hfits⟩
        rw [hr] at h
        cases h
        refine ⟨⟨c, m, hf⟩, fun c' m' hf' => ?_⟩
        rw [(Tree.node?_removeLeaves_eq_none hf).2 ⟨by simp, by
          simp [Node.isFile, List.isPrefixOf_iff_prefix, hpre, hne, hw, hfits]⟩] at hf'
        cases hf'
    · refine Or.inl ⟨by simp only [if_neg hdir], ?_⟩
      rintro l ⟨_, c, m, h, hd, -⟩
      rw [hr] at h
      cases h
      exact hdir hd

/-- Where no file is counted, none is removed. -/
theorem Settled.removeFilesBelow_eq {d : Disk} (hs : d.Settled) {p : Path}
    {wanted : Name → Node → Bool} (h : (d.removeFilesBelow p wanted).1 = 0) :
    (d.removeFilesBelow p wanted).2 = d := by
  unfold removeFilesBelow at h ⊢
  split
  · rfl
  · next l hl =>
    split
    · next hdir =>
      simp only [hl, if_pos hdir] at h
      have hnone := List.filter_eq_nil_iff.1 (List.eq_nil_of_length_eq_zero h)
      simp only
      rw [Tree.removeLeaves_eq_self]
      · exact hs.withTree_eq (.refl d.tree)
      · exact fun e he => Bool.eq_false_iff.2 (hnone e he)
    · rfl

theorem deletes_removeFilesBelow (d : Disk) (p : Path) (wanted : Name → Node → Bool) :
    Edits (fun d t => Deletes (fun l n => n.isFile = true ∧ d.WantedBelow p wanted l) d t) d
      (d.removeFilesBelow p wanted).2 := by
  rcases removeFilesBelow_cases d p wanted with ⟨e, -⟩ | ⟨t, e, hdel, -⟩
  · rw [e]
    exact .refl d
  · rw [e]
    exact .single hdel

theorem edits_removeFilesBelow (d : Disk) (p : Path) (wanted : Name → Node → Bool) :
    Edits (fun d' t => ∀ l, d'.tree.Loses t l → d'.WantedBelow p wanted l) d
      (d.removeFilesBelow p wanted).2 :=
  (deletes_removeFilesBelow d p wanted).mono fun d' t h l hl => by
    obtain ⟨c, m, -, -, hwanted⟩ := h.of_loses hl
    exact hwanted

/-! ## One path -/

theorem removeFile_eq_ok {d d' : Disk} {p : Path} (h : d.removeFile p = .ok d') :
    ∃ directory name n, d.slot p = .ok (directory, some name) ∧ isDots name = false ∧
      p.endsWithSlash = false ∧ d.tree.node? (directory ++ [name]) = some n ∧ n ≠ .directory ∧
      d' = d.withTree (d.tree.prune (directory ++ [name])) := by
  unfold removeFile at h
  cases hs : d.slot p with
  | error cause => rw [hs] at h; cases h
  | ok r =>
    obtain ⟨directory, name?⟩ := r
    rw [hs] at h
    cases name? with
    | none => cases h
    | some name =>
      simp only at h
      split at h
      · cases h
      · next hdots =>
        split at h
        · cases h
        · cases h
        · next n hdir hn =>
          split at h
          · cases h
          · next hslash =>
            cases h
            exact ⟨directory, name, n, rfl, by simpa using hdots, by simpa using hslash, hn,
              fun e => hdir (e ▸ rfl), rfl⟩

/-- A location is the entry that a path names, links at its end not followed. -/
def Entry (d : Disk) (p : Path) (l : Location) : Prop :=
  ∃ directory name, d.slot p = .ok (directory, some name) ∧ isDots name = false ∧
    l = directory ++ [name]

theorem deletes_prune_leaf {d : Disk} {l : Location} {n : Node} (hl : d.tree.node? l = some n)
    (hn : n ≠ .directory) : Deletes (fun k _ => k = l) d (d.tree.prune l) := by
  refine ⟨Tree.shrinks_restrict _ _ _, fun {k m} hm hnone => ?_⟩
  obtain ⟨-, hkeep⟩ := (Tree.node?_restrict_eq_none hm).1 hnone
  have hpre : l <+: k := by simpa [List.isPrefixOf_iff_prefix] using hkeep
  refine Decidable.byContradiction fun hne => hn ?_
  rw [Tree.directory_above hm hpre (Ne.symm hne)] at hl
  exact (Option.some.inj hl).symm

/-- **Removing a file deletes at most the entry that the path names**, which is no directory. -/
theorem deletes_removeFile {d d' : Disk} {p : Path} (h : d.removeFile p = .ok d') :
    ∃ t, d' = d.withTree t ∧
      Deletes (fun l n => d.Entry p l ∧ n ≠ .directory) d t := by
  obtain ⟨directory, name, n, hs, hdots, -, hn, hdir, rfl⟩ := removeFile_eq_ok h
  refine ⟨_, rfl, (deletes_prune_leaf hn hdir).mono fun l m hm e => ?_⟩
  subst e
  rw [hn] at hm
  cases hm
  exact ⟨⟨directory, name, hs, hdots, rfl⟩, hdir⟩

theorem entry_of_removeFile {d d' : Disk} {p : Path} (h : d.removeFile p = .ok d') :
    ∃ t, d' = d.withTree t ∧ ∀ l, d.tree.Loses t l → d.Entry p l := by
  obtain ⟨t, rfl, hdel⟩ := deletes_removeFile h
  refine ⟨t, rfl, fun l hl => ?_⟩
  obtain ⟨c, m, -, hentry, -⟩ := hdel.of_loses hl
  exact hentry

/-! ## Directories with all they hold -/

/-- A location is the one to which the path of a directory leads, or below it. -/
def AtOrBelow (d : Disk) (p : Path) (l : Location) : Prop :=
  ∃ r, d.tree.Leads d.here p r ∧ d.tree.node? r = some .directory ∧ r <+: l

theorem deletes_removeDirectory {d d' : Disk} {p : Path} (h : d.removeDirectory p = .ok d') :
    ∃ t, d' = d.withTree t ∧ Deletes (fun l _ => d.AtOrBelow p l) d t := by
  unfold removeDirectory at h
  cases hs : d.slot p with
  | error cause => rw [hs] at h; cases h
  | ok r =>
    obtain ⟨directory, name?⟩ := r
    rw [hs] at h
    cases name? with
    | none => cases h
    | some name =>
      simp only at h
      split at h
      · cases h
      next hdot =>
      split at h
      · cases h
      next hup =>
      split at h
      · cases h
      · next hdir =>
        split at h
        · cases h
          refine ⟨_, rfl, Tree.shrinks_restrict _ _ _, fun {l n} hn hnone => ?_⟩
          obtain ⟨-, hkeep⟩ := (Tree.node?_restrict_eq_none hn).1 hnone
          have hr := resolve_of_slot (.refl d.tree) hs (by simp [isDots, hdot, hup]) hdir
          exact ⟨_, leads_of_resolve hr, hdir, by
            simpa [List.isPrefixOf_iff_prefix] using hkeep⟩
        · cases h
      · cases h

theorem deletes_clear {d : Disk} {p : Path} {r : Location} (hr : d.resolve p = .ok r) :
    Deletes (fun l _ => d.AtOrBelow p l) d (d.tree.clear r) := by
  refine ⟨Tree.shrinks_restrict _ _ _, fun {l n} hn hnone => ?_⟩
  obtain ⟨-, hkeep⟩ := (Tree.node?_restrict_eq_none hn).1 hnone
  obtain ⟨hpre, hne⟩ : r <+: l ∧ l ≠ r := by
    simpa [List.isPrefixOf_iff_prefix] using hkeep
  exact ⟨r, leads_of_resolve hr, Tree.directory_above hn hpre hne.symm, hpre⟩

/-- **Removing a path with all it holds deletes a directory and what is below it**, or a link. -/
theorem deletes_removeAll (d : Disk) (p : Path) :
    Edits (fun d t => Deletes (fun l n => d.AtOrBelow p l ∨ ∃ target, n = .link target) d t) d
      (d.removeAll p).2 := by
  unfold removeAll
  cases hl : d.linkNode? p with
  | none => exact .refl d
  | some n =>
    cases n with
    | file c m => exact .refl d
    | link target =>
      cases hrm : d.removeFile p with
      | error cause => exact .refl d
      | ok d' =>
        obtain ⟨directory, name, n, hs, hdots, hslash, hn, hdir, rfl⟩ := removeFile_eq_ok hrm
        have hlink : n = .link target := by simpa [linkNode?, hslash, hs, hdots, hn] using hl
        refine .single ((deletes_prune_leaf hn hdir).mono fun l m hm e => Or.inr ⟨target, ?_⟩)
        rw [e, hn] at hm
        rw [← hlink]
        exact (Option.some.inj hm).symm
    | directory =>
      cases hr : d.resolve p with
      | error cause => exact .refl d
      | ok r =>
        have hclear := (deletes_clear hr).mono fun l n _ h =>
          (Or.inl h : _ ∨ ∃ target, n = .link target)
        simp only
        cases hrm : (d.withTree (d.tree.clear r)).removeDirectory p with
        | error cause => exact .single hclear
        | ok d' =>
          obtain ⟨t, rfl, h⟩ := deletes_removeDirectory hrm
          exact .step _ hclear (.single (h.mono fun l n _ h => Or.inl h))

/-- A location below the one to which a path leads. -/
def Inside (d : Disk) (p : Path) (l : Location) : Prop :=
  ∃ r, d.tree.Leads d.here p r ∧ r <+: l ∧ l ≠ r

/-- The files among them are below the directory. -/
theorem edits_removeAll (d : Disk) (p : Path) :
    Edits (fun d' t => ∀ l, d'.tree.Loses t l → d'.Inside p l) d (d.removeAll p).2 :=
  (deletes_removeAll d p).mono fun d' t h l hl => by
    obtain ⟨c, m, hf, ⟨r, hr, hdir, hpre⟩ | ⟨target, hlink⟩⟩ := h.of_loses hl
    · refine ⟨r, hr, hpre, ?_⟩
      rintro rfl
      rw [hdir] at hf
      cases hf
    · cases hlink

end Disk
end StatusBadges
