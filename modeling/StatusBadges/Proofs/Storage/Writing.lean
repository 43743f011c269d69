import StatusBadges.Proofs.Storage.Growth
import StatusBadges.Storage.Update

/-!
# What writing changes

Writing a text changes one file, the one to which the path leads (`writeText_eq_ok`,
`wrote_of_writeText`). Making directories makes some that were missing, each of them at one of the
paths that are made on the way (`Builds`). Both let the tree grow, so that a process keeps its
working directory.
-/

namespace StatusBadges

namespace Tree

theorem accepts_of_isFile {t : Tree} {l : Location} {c : Content} {m : Nat}
    (h : t.node? l = some (.file c m)) : t.accepts l = true := by
  rcases List.eq_nil_or_concat l with rfl | ⟨directory, name, rfl⟩
  · rw [node?_nil] at h; cases h
  · rw [List.concat_eq_append] at h ⊢
    refine accepts_iff.2 ⟨directory, name, rfl, isPlain_of_node? h name (by simp), ?_, by simp [h]⟩
    have hd := node?_dropLast h
    rwa [List.dropLast_concat] at hd

/-- What is found at a node of the tree that is no directory is that node. -/
theorem node?_of_found? {t : Tree} {l : Location} (h : t.found? l ≠ some .directory) :
    t.node? l = t.found? l := by
  unfold found? at h ⊢
  split at h
  · exact absurd rfl h
  · next hr => rw [if_neg hr]

end Tree

namespace Disk

/-! ## Writing a text -/

/-- What a text is written to: the file to which the path leads, or a new one in a directory. -/
theorem writeText_eq_ok {d d' : Disk} {p : Path} {text : String}
    (h : d.writeText p text = .ok d') :
    ∃ l mode, d.resolve p = .ok l ∧ d.tree.accepts l = true ∧
      (d.tree.node? l = none ∨ ∃ c, d.tree.node? l = some (.file c mode)) ∧
      d' = d.withTree (d.tree.put l (.file (.text text) mode)) := by
  unfold writeText at h
  cases hr : d.resolve p with
  | error cause => rw [hr] at h; cases h
  | ok l =>
    rw [hr] at h
    simp only at h
    cases hf : d.tree.found? l with
    | none =>
      rw [hf] at h
      simp only at h
      split at h
      · next ha =>
        cases h
        have hn := Tree.node?_of_found? (t := d.tree) (l := l) (by simp [hf])
        exact ⟨l, newFileMode, rfl, ha, Or.inl (hn.trans hf), rfl⟩
      · cases h
    | some n =>
      rw [hf] at h
      cases n with
      | directory => cases h
      | link q => cases h
      | file c mode =>
        simp only at h
        split at h
        · cases h
          have hn := Tree.node?_of_found? (t := d.tree) (l := l) (by simp [hf])
          rw [hf] at hn
          exact ⟨l, mode, rfl, Tree.accepts_of_isFile hn, Or.inr ⟨c, hn⟩, rfl⟩
        · cases h

/-- A disk on which a text was written at a location. -/
structure Wrote (text : String) (l : Location) (d d' : Disk) : Prop where
  here_eq : d'.here = d.here
  grows : Tree.Grows d.tree d'.tree
  node : ∃ mode, d'.tree.node? l = some (.file (.text text) mode) ∧
    ∀ c m, d.tree.node? l = some (.file c m) → m = mode
  others : ∀ k, k ≠ l → d'.tree.node? k = d.tree.node? k

namespace Wrote

theorem eq_mk {text : String} {l : Location} {d d' : Disk} (h : Wrote text l d d') :
    d' = ⟨d'.tree, d.here⟩ := by
  rw [← h.here_eq]

theorem settled {text : String} {l : Location} {d d' : Disk} (h : Wrote text l d d')
    (hs : d.Settled) : d'.Settled := by
  rw [h.eq_mk]
  exact hs.grows h.grows

theorem resolve {text : String} {l k : Location} {d d' : Disk} (h : Wrote text l d d') {p : Path}
    (hp : d.resolve p = .ok k) : d'.resolve p = .ok k := by
  rw [h.eq_mk]
  exact resolve_of_grows h.grows hp

theorem directory_iff {text : String} {l : Location} {d d' : Disk} (h : Wrote text l d d')
    (k : Location) :
    d'.tree.node? k = some .directory ↔ d.tree.node? k = some .directory := by
  by_cases hk : k = l
  · subst hk
    refine ⟨fun hdir => ?_, h.grows.directory⟩
    obtain ⟨mode, hnode, -⟩ := h.node
    rw [hnode] at hdir
    cases hdir
  · rw [h.others k hk]

end Wrote

theorem node?_of_resolve {d : Disk} {p : Path} {l : Location} {n : Node} (hp : d.resolve p = .ok l)
    (hn : d.tree.node? l = some n) : d.node? p = some n := by
  unfold node?
  rw [hp]
  exact Tree.found?_of_node? hn

/-- A path is that of a file exactly when it leads to one. -/
theorem node?_eq_file_iff {d : Disk} {p : Path} {content : Content} {mode : Nat} :
    d.node? p = some (.file content mode) ↔
      ∃ m, d.resolve p = .ok m ∧ d.tree.node? m = some (.file content mode) := by
  constructor
  · intro h
    cases hp : d.resolve p with
    | error cause => simp [node?, hp] at h
    | ok m =>
      have hfound : d.tree.found? m = some (.file content mode) := by simpa [node?, hp] using h
      have hnode := Tree.node?_of_found? (t := d.tree) (l := m) (by simp [hfound])
      exact ⟨m, rfl, hnode.trans hfound⟩
  · intro h
    obtain ⟨m, hp, hm⟩ := h
    exact node?_of_resolve hp hm

/-- **Writing a text changes the file to which the path leads**, and nothing else. -/
theorem wrote_of_writeText {d d' : Disk} (hs : d.Settled) {p : Path} {text : String}
    (h : d.writeText p text = .ok d') :
    ∃ l, d.resolve p = .ok l ∧ d'.resolve p = .ok l ∧ Wrote text l d d' := by
  obtain ⟨l, mode, hr, ha, hl, rfl⟩ := writeText_eq_ok h
  have hg : Tree.Grows d.tree (d.tree.put l (.file (.text text) mode)) := by
    refine Tree.Grows.put (fun p hp => by cases hp) ?_
    rcases hl with hl | ⟨c, hl⟩
    · exact Or.inl hl
    · exact Or.inr ⟨rfl, c, mode, hl⟩
  rw [hs.withTree_eq hg]
  refine ⟨l, hr, resolve_of_grows hg hr, rfl, hg, ⟨mode, ?_, ?_⟩, ?_⟩
  · rw [Tree.node?_put ha, if_pos rfl]
  · intro c m hm
    rcases hl with hl | ⟨c', hl⟩ <;> rw [hl] at hm <;> cases hm
    rfl
  · intro k hk
    rw [Tree.node?_put ha, if_neg hk]

/-! ## Making directories -/

/-- A directory that stands in a slot is where the path of the slot leads. -/
theorem resolve_of_slot {d : Disk} {u : Tree} (hg : Tree.Grows d.tree u) {p : Path}
    {directory : Location} {name : Name} (h : d.slot p = .ok (directory, some name))
    (hn : isDots name = false) (hu : u.node? (directory ++ [name]) = some .directory) :
    (⟨u, d.here⟩ : Disk).resolve p = .ok (directory ++ [name]) := by
  obtain ⟨before, hparts, hc, hf, hdir⟩ := slot_eq_ok h
  obtain ⟨hd, hlen⟩ := hdir hn
  obtain ⟨hdot, hup⟩ : name ≠ ['.'] ∧ name ≠ ['.', '.'] := by simpa [isDots] using hn
  have hr := Tree.not_isRemoved_of_node? hd
  obtain ⟨n, hw⟩ := Tree.follow_eq_ok_iff.1 hf
  have hgo := Tree.followWithin_append (Tree.followWithin_of_grows hg hw)
    (name :: if p.endsWithSlash then [['.']] else [])
  -- The name itself is a directory now, and a slash behind it asks for no more than that.
  have hwalk : u.walk directory (name :: if p.endsWithSlash then [['.']] else []) =
      .arrived (directory ++ [name]) := by
    simp only [Tree.walk, if_neg hdot, if_neg hup, if_neg hr, if_neg hlen, hu]
    split <;> simp [Tree.walk]
  have hend : u.followWithin n directory (name :: if p.endsWithSlash then [['.']] else []) =
      .ok (directory ++ [name], n) := by
    cases n <;> simp only [Tree.followWithin, hwalk]
  have hsteps : p.steps = before ++ (name :: if p.endsWithSlash then [['.']] else []) := by
    rw [Path.steps, hparts, List.append_assoc, List.singleton_append]
  unfold resolve
  rw [hc, hsteps]
  exact Tree.follow_eq_ok_iff.2 ⟨n, hgo.trans hend⟩

/-- A disk on which some missing directories were made, each of them at one of the paths. -/
structure Builds (paths : List Path) (d d' : Disk) : Prop where
  here_eq : d'.here = d.here
  grows : Tree.Grows d.tree d'.tree
  made : ∀ l, d'.tree.node? l ≠ d.tree.node? l → d.tree.node? l = none ∧
    d'.tree.node? l = some .directory ∧ ∃ p ∈ paths, d'.resolve p = .ok l

namespace Builds

theorem refl (paths : List Path) (d : Disk) : Builds paths d d :=
  ⟨rfl, .refl _, fun _ h => absurd rfl h⟩

theorem settled {paths : List Path} {d d' : Disk} (h : Builds paths d d') (hs : d.Settled) :
    d'.Settled := by
  have e : d' = ⟨d'.tree, d.here⟩ := by rw [← h.here_eq]
  rw [e]
  exact hs.grows h.grows

theorem mono {paths more : List Path} {d d' : Disk} (h : Builds paths d d')
    (hsub : paths ⊆ more) : Builds more d d' := by
  refine ⟨h.here_eq, h.grows, ?_⟩
  intro l hl
  obtain ⟨h0, h1, p, hp, hr⟩ := h.made l hl
  exact ⟨h0, h1, p, hsub hp, hr⟩

theorem trans {paths : List Path} {d d' d'' : Disk} (h : Builds paths d d')
    (h' : Builds paths d' d'') : Builds paths d d'' := by
  refine ⟨h'.here_eq.trans h.here_eq, h.grows.trans h'.grows, ?_⟩
  intro l hl
  by_cases e : d''.tree.node? l = d'.tree.node? l
  · rw [e] at hl ⊢
    obtain ⟨h0, h1, p, hp, hr⟩ := h.made l hl
    refine ⟨h0, h1, p, hp, ?_⟩
    have hlater : d'' = ⟨d''.tree, d'.here⟩ := by rw [← h'.here_eq]
    rw [hlater]
    exact resolve_of_grows h'.grows hr
  · obtain ⟨h0, h1, p, hp, hr⟩ := h'.made l e
    refine ⟨?_, h1, p, hp, hr⟩
    cases hd : d.tree.node? l with
    | none => rfl
    | some n =>
      cases n with
      | directory => rw [h.grows.directory hd] at h0; cases h0
      | file c m =>
        obtain ⟨c', m', hf⟩ := h.grows.file hd
        rw [hf] at h0
        cases h0
      | link q => rw [h.grows.link.2 hd] at h0; cases h0

/-- When a text is written behind it, what differs elsewhere are the directories that were made. -/
theorem made_of_wrote {paths : List Path} {text : String} {l : Location} {d made d' : Disk}
    (h : Builds paths d made) (hw : Wrote text l made d') {k : Location} (hk : k ≠ l)
    (hdiff : d'.tree.node? k ≠ d.tree.node? k) :
    d.tree.node? k = none ∧ d'.tree.node? k = some .directory ∧
      ∃ p ∈ paths, d'.resolve p = .ok k := by
  rw [hw.others k hk] at hdiff ⊢
  obtain ⟨h0, h1, p, hp, hr⟩ := h.made k hdiff
  exact ⟨h0, h1, p, hp, hw.resolve hr⟩

end Builds

theorem builds_of_makeDirectory {d d' : Disk} (hs : d.Settled) {p : Path}
    (h : d.makeDirectory p = .ok d') : Builds [p] d d' := by
  unfold makeDirectory at h
  cases hsl : d.slot p with
  | error cause => rw [hsl] at h; cases h
  | ok r =>
    obtain ⟨directory, name?⟩ := r
    rw [hsl] at h
    cases name? with
    | none => cases h
    | some name =>
      simp only at h
      split at h
      · cases h
      · next hfree =>
        cases h
        simp only [Bool.or_eq_true, not_or, Bool.not_eq_true, Option.isSome_eq_false_iff,
          Option.isNone_iff_eq_none] at hfree
        obtain ⟨hn, hnone⟩ := hfree
        have hg : Tree.Grows d.tree (d.tree.put (directory ++ [name]) .directory) :=
          .put (fun p hp => by cases hp) (Or.inl hnone)
        rw [hs.withTree_eq hg]
        refine ⟨rfl, hg, ?_⟩
        intro l hl
        by_cases ha : d.tree.accepts (directory ++ [name]) = true
        · simp only [Tree.node?_put ha] at hl ⊢
          split at hl
          · next e =>
            subst e
            refine ⟨hnone, if_pos rfl, p, List.mem_singleton.2 rfl, ?_⟩
            exact resolve_of_slot hg hsl hn (by rw [Tree.node?_put ha, if_pos rfl])
          · exact absurd rfl hl
        · simp only [Tree.put, dif_neg ha] at hl
          exact absurd rfl hl

theorem builds_ensureDirectory {d : Disk} (hs : d.Settled) (p : Path) :
    Builds [p] d (d.ensureDirectory p).2 := by
  unfold ensureDirectory
  cases h : d.makeDirectory p with
  | ok d' => exact builds_of_makeDirectory hs h
  | error cause => exact .refl _ d

theorem builds_ensureChain {d : Disk} (hs : d.Settled) (paths : List Path) :
    Builds paths d (d.ensureChain paths).2 := by
  induction paths with
  | nil => exact .refl _ d
  | cons p above ih =>
    have one {d d' : Disk} (h : Builds [p] d d') : Builds (p :: above) d d' :=
      h.mono (by simp)
    unfold ensureChain
    split
    · exact .refl _ d
    · cases h : d.makeDirectory p with
      | ok d' => exact one (builds_of_makeDirectory hs h)
      | error cause =>
        simp only
        split
        · cases hc : d.ensureChain above with
          | mk result d' =>
            rw [hc] at ih
            have hup : Builds (p :: above) d d' := ih.mono (List.subset_cons_self p above)
            cases result with
            | error cause => exact hup
            | ok _ => exact hup.trans (one (builds_ensureDirectory (hup.settled hs) p))
        · exact .refl _ d

/-- **Making a directory and those above it** makes only directories that were missing, each at the
path or at a path above it. -/
theorem builds_makeDirectories {d : Disk} (hs : d.Settled) (p : Path) :
    Builds p.ancestors d (d.makeDirectories p).2 :=
  builds_ensureChain hs p.ancestors

end Disk
end StatusBadges
