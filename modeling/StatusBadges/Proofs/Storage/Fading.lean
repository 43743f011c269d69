import StatusBadges.Proofs.Storage.Arrival
import StatusBadges.Proofs.Storage.Shrinking

/-!
# Disks that lose nodes one step after another

A disk that faded lost files and directories, maybe the working directory among them. Without links
and double dots a path still leads to what is left of where it led (`Fades.resolve_iff`). So what a
removal looks for on the faded disk is what it would have found before, as far as that is left
(`Lasting`), and removals that follow one another take together what each of them would take from
the first disk (`Strips.trans`, `Takes.trans`).
-/

namespace StatusBadges

theorem Tree.Shrinks.node?_eq_none {t u : Tree} (h : t.Shrinks u) {l : Location}
    (hl : t.node? l = none) : u.node? l = none := by
  cases hu : u.node? l with
  | none => rfl
  | some n => rw [← hl, h l n hu]

/-- A node is either left or gone. -/
theorem Tree.Shrinks.node?_eq_some {t u : Tree} (h : t.Shrinks u) {l : Location} {n : Node}
    (hl : t.node? l = some n) (hu : u.node? l ≠ none) : u.node? l = some n := by
  obtain ⟨m, hm⟩ := Option.ne_none_iff_exists'.1 hu
  rw [← hl, h l m hm, hm]

/-- What a tree lost after another one it lost at once, and no file is lost twice. -/
theorem Tree.loses_trans_iff {t u v : Tree} (h : t.Shrinks u) (h' : u.Shrinks v) {l : Location} :
    t.Loses v l ↔ t.Loses u l ∨ u.Loses v l := by
  constructor
  · rintro ⟨hf, hno⟩
    by_cases hu : ∃ c m, u.node? l = some (.file c m)
    · exact .inr ⟨hu, hno⟩
    · exact .inl ⟨hf, fun c m e => hu ⟨c, m, e⟩⟩
  · rintro (⟨hf, hno⟩ | ⟨⟨c, m, hu⟩, hno⟩)
    · exact ⟨hf, fun c m e => hno c m (h' l _ e)⟩
    · exact ⟨⟨c, m, h l _ hu⟩, hno⟩

namespace Disk

/-- A disk lost some nodes. The working directory is where it was or was removed. -/
structure Fades (d d' : Disk) : Prop where
  shrinks : d.tree.Shrinks d'.tree
  settled : d'.Settled
  here : d'.here = d.here ∨
    Location.isRemoved d'.here = true ∧ d'.tree.node? d.here ≠ some .directory

namespace Fades

theorem refl {d : Disk} (hs : d.Settled) : Fades d d := ⟨.refl _, hs, .inl rfl⟩

theorem trans {d d' d'' : Disk} (h : Fades d d') (h' : Fades d' d'') : Fades d d'' := by
  refine ⟨h.shrinks.trans h'.shrinks, h'.settled, ?_⟩
  rcases h'.here with e | hremoved
  · rw [e]
    exact h.here.imp_right fun ⟨hremoved, hno⟩ => ⟨hremoved, fun hn => hno (h'.shrinks _ _ hn)⟩
  · rcases h.here with e | ⟨-, hno⟩
    · exact .inr (e ▸ hremoved)
    · exact .inr ⟨hremoved.1, fun hn => hno (h'.shrinks _ _ hn)⟩

theorem withTree (d : Disk) {t : Tree} (h : d.tree.Shrinks t) : Fades d (d.withTree t) := by
  refine ⟨h, d.settled_withTree t, ?_⟩
  by_cases hl : t.node? d.here = some .directory
  · exact .inl (Tree.anchor_eq_self hl)
  · refine .inr ⟨?_, hl⟩
    rw [Disk.withTree, Tree.anchor, dif_neg hl]
    simp [Location.isRemoved]

variable {d d' : Disk} (h : Fades d d') (ht : d.tree.Linkless)
include h ht

theorem linkless : d'.tree.Linkless := h.shrinks.linkless ht

/-- **A path leads to what is left of where it led**, and nowhere else. -/
theorem resolve_iff {p : Path} (hup : ['.', '.'] ∉ p.parts) {r : Location}
    (hr : d'.tree.node? r = some .directory) : d'.resolve p = .ok r ↔ d.resolve p = .ok r := by
  have hsteps : ['.', '.'] ∉ p.steps := by
    unfold Path.steps
    split <;> simp [hup]
  rw [resolve_eq_ok_iff_walk ht, resolve_eq_ok_iff_walk (h.linkless ht)]
  refine and_congr_right fun _ => ⟨fun hwalk => ?_, fun hwalk => ?_⟩
  · have hstart : d'.start p = d.start p := by
      cases habs : p.isAbsolute with
      | true => simp [start, Tree.startOf, habs]
      | false =>
        rcases h.here with e | ⟨hremoved, -⟩
        · simp [start, Tree.startOf, e]
        · -- Nothing is left below a directory that was removed.
          have hpre := Tree.prefix_of_walk hsteps hwalk
          simp only [start, Tree.startOf, habs, Bool.false_eq_true, if_false] at hpre
          have hlast : d'.here.getLast? = some [] := by simpa [Location.isRemoved] using hremoved
          have hplain := Tree.isPlain_of_node? hr [] (hpre.subset (List.mem_of_getLast? hlast))
          cases hplain
    rw [hstart] at hwalk
    exact Tree.walk_of_grows (h.shrinks.grows ht) hwalk (by simp)
  · have hstart : d'.start p = d.start p := by
      cases habs : p.isAbsolute with
      | true => simp [start, Tree.startOf, habs]
      | false =>
        rcases h.here with e | ⟨-, hno⟩
        · simp [start, Tree.startOf, e]
        · -- The working directory is still above what is left.
          have hpre := Tree.prefix_of_walk hsteps hwalk
          simp only [start, Tree.startOf, habs, Bool.false_eq_true, if_false] at hpre
          by_cases e : d.here = r
          · exact absurd (e ▸ hr) hno
          · exact absurd (Tree.directory_above hr hpre e) hno
    rw [hstart]
    exact Tree.walk_of_node (h.linkless ht) (.inr hsteps) hwalk hr fun _ => rfl

end Fades

/-! ## What is looked for -/

/-- A regular file of this name in the directory to which a path leads, whose path is not too
long. -/
def FileIn (d : Disk) (p : Path) (n : Name) (l : Location) : Prop :=
  ∃ r content mode, d.resolve p = .ok r ∧ l = r ++ [n] ∧
    d.tree.node? l = some (.file content mode) ∧ (p.child n).fits = true

/-- Files that are looked for on a disk, of which those are found later that are left. -/
structure Lasting (goal : Disk → Location → Prop) : Prop where
  file : ∀ {d l}, goal d l → ∃ content mode, d.tree.node? l = some (.file content mode)
  iff : ∀ {d d' : Disk} {l}, d.Fades d' → d.tree.Linkless →
    (goal d' l ↔ goal d l ∧ d'.tree.node? l ≠ none)

namespace Lasting

theorem or {goal goal' : Disk → Location → Prop} (h : Lasting goal) (h' : Lasting goal') :
    Lasting fun d l => goal d l ∨ goal' d l where
  file hl := hl.elim h.file h'.file
  iff hd ht := by rw [h.iff hd ht, h'.iff hd ht, or_and_right]

theorem wantedBelow {p : Path} (hup : ['.', '.'] ∉ p.parts) (wanted : Name → Node → Bool) :
    Lasting fun d => d.WantedBelow p wanted where
  file := fun ⟨_, content, mode, _, _, _, _, hf, _⟩ => ⟨content, mode, hf⟩
  iff {d d' l} hd ht := by
    constructor
    · rintro ⟨r, content, mode, hr, hdir, hpre, hne, hf, hrest⟩
      exact ⟨⟨r, content, mode, (hd.resolve_iff ht hup hdir).1 hr, hd.shrinks _ _ hdir, hpre, hne,
        hd.shrinks _ _ hf, hrest⟩, by simp [hf]⟩
    · rintro ⟨⟨r, content, mode, hr, -, hpre, hne, hf, hrest⟩, hleft⟩
      have hf' := hd.shrinks.node?_eq_some hf hleft
      have hdir := Tree.directory_above hf' hpre hne.symm
      exact ⟨r, content, mode, (hd.resolve_iff ht hup hdir).2 hr, hdir, hpre, hne, hf', hrest⟩

theorem fileIn {p : Path} (hup : ['.', '.'] ∉ p.parts) (n : Name) :
    Lasting fun d => d.FileIn p n where
  file := fun ⟨_, content, mode, _, _, hf, _⟩ => ⟨content, mode, hf⟩
  iff {d d' l} hd ht := by
    constructor
    · rintro ⟨r, content, mode, hr, rfl, hf, hfits⟩
      have hdir := Tree.directory_above hf (List.prefix_append r [n]) (by simp)
      exact ⟨⟨r, content, mode, (hd.resolve_iff ht hup hdir).1 hr, rfl, hd.shrinks _ _ hf, hfits⟩,
        by simp [hf]⟩
    · rintro ⟨⟨r, content, mode, hr, rfl, hf, hfits⟩, hleft⟩
      have hf' := hd.shrinks.node?_eq_some hf hleft
      have hdir := Tree.directory_above hf' (List.prefix_append r [n]) (by simp)
      exact ⟨r, content, mode, (hd.resolve_iff ht hup hdir).2 hr, rfl, hf', hfits⟩

end Lasting

/-! ## Removals one after another -/

/-- A disk lost exactly these nodes. -/
structure Strips (d : Disk) (gone : Location → Prop) (d' : Disk) : Prop where
  fades : d.Fades d'
  absent : ∀ {l}, gone l → d'.tree.node? l = none
  stays : ∀ {l}, ¬ gone l → d'.tree.node? l = d.tree.node? l

theorem Strips.refl {d : Disk} (hs : d.Settled) {gone : Location → Prop} (h : ∀ l, ¬ gone l) :
    d.Strips gone d :=
  ⟨.refl hs, fun hl => absurd hl (h _), fun _ => rfl⟩

theorem Strips.congr {d d' : Disk} {gone gone' : Location → Prop} (h : d.Strips gone d')
    (hg : ∀ l, gone l ↔ gone' l) : d.Strips gone' d' :=
  ⟨h.fades, fun hl => h.absent ((hg _).2 hl), fun hl => h.stays fun hl' => hl ((hg _).1 hl')⟩

theorem Strips.trans {gone : Location → Prop} {goal : Disk → Location → Prop} {d d' d'' : Disk}
    (h : d.Strips gone d') (h' : d'.Strips (goal d') d'') (hgoal : Lasting goal)
    (ht : d.tree.Linkless) : d.Strips (fun l => gone l ∨ goal d l) d'' where
  fades := h.fades.trans h'.fades
  absent {l} hl := by
    rcases hl with hl | hl
    · exact h'.fades.shrinks.node?_eq_none (h.absent hl)
    · by_cases hleft : d'.tree.node? l = none
      · exact h'.fades.shrinks.node?_eq_none hleft
      · exact h'.absent ((hgoal.iff h.fades ht).2 ⟨hl, hleft⟩)
  stays {l} hl := by
    obtain ⟨hgone, hno⟩ := not_or.1 hl
    rw [h'.stays fun hgoal' => hno ((hgoal.iff h.fades ht).1 hgoal').1, h.stays hgone]

theorem Strips.node?_eq_none_iff {d d' : Disk} {gone : Location → Prop} (h : d.Strips gone d')
    {l : Location} {n : Node} (hn : d.tree.node? l = some n) :
    d'.tree.node? l = none ↔ gone l := by
  refine ⟨fun hnone => Classical.byContradiction fun hl => ?_, h.absent⟩
  rw [h.stays hl, hn] at hnone
  cases hnone

/-- What is lost later is what is lost at all and was not gone. -/
theorem Strips.loses_later_iff {d d' : Disk} {gone : Location → Prop} (h : d.Strips gone d')
    {t : Tree} {l : Location} : d'.tree.Loses t l ↔ d.tree.Loses t l ∧ ¬ gone l := by
  constructor
  · rintro ⟨⟨content, mode, hf⟩, hno⟩
    refine ⟨⟨⟨content, mode, h.fades.shrinks _ _ hf⟩, hno⟩, fun hl => ?_⟩
    rw [h.absent hl] at hf
    cases hf
  · rintro ⟨⟨⟨content, mode, hf⟩, hno⟩, hl⟩
    exact ⟨⟨content, mode, (h.stays hl).trans hf⟩, hno⟩

/-- A removal takes exactly the files that it looks for, and counts them. -/
structure Takes (d : Disk) (goal : Disk → Location → Prop) (removed : Nat × Disk) : Prop where
  strips : d.Strips (goal d) removed.2
  counted : ∃ lost : List Location, lost.Nodup ∧
    (∀ l, l ∈ lost ↔ d.tree.Loses removed.2.tree l) ∧ removed.1 = lost.length

/-- The files that are lost are those that are gone. -/
theorem Strips.loses_iff {d d' : Disk} {gone : Location → Prop} (h : d.Strips gone d')
    (hfile : ∀ {l}, gone l → ∃ content mode, d.tree.node? l = some (.file content mode))
    {l : Location} : d.tree.Loses d'.tree l ↔ gone l := by
  constructor
  · rintro ⟨⟨content, mode, hf⟩, hno⟩
    refine Classical.byContradiction fun hl => hno content mode ?_
    rw [h.stays hl, hf]
  · exact fun hl => ⟨hfile hl, by simp [h.absent hl]⟩

theorem Takes.of_strips {goal : Disk → Location → Prop} (hgoal : Lasting goal) {d d' : Disk}
    (h : d.Strips (goal d) d') {lost : List Location} (hlost : lost.Nodup)
    (hmem : ∀ l, l ∈ lost ↔ goal d l) : d.Takes goal (lost.length, d') :=
  ⟨h, lost, hlost, fun l => (hmem l).trans (h.loses_iff hgoal.file).symm, rfl⟩

/-- Files that are lost by one removal after another are counted once. -/
theorem nodup_append_of_loses {t u v : Tree} (h : t.Shrinks u) (h' : u.Shrinks v)
    {lost lost' : List Location} (hlost : lost.Nodup) (hlost' : lost'.Nodup)
    (hmem : ∀ l, l ∈ lost ↔ t.Loses u l) (hmem' : ∀ l, l ∈ lost' ↔ u.Loses v l) :
    (lost ++ lost').Nodup ∧ ∀ l, l ∈ lost ++ lost' ↔ t.Loses v l := by
  refine ⟨List.nodup_append.2 ⟨hlost, hlost', fun a ha b hb e => ?_⟩, fun l => ?_⟩
  · subst e
    obtain ⟨-, hno⟩ := (hmem a).1 ha
    obtain ⟨⟨c, m, hf⟩, -⟩ := (hmem' a).1 hb
    exact hno c m hf
  · rw [List.mem_append, hmem, hmem', Tree.loses_trans_iff h h']

theorem Takes.trans {goal goal' : Disk → Location → Prop} {d d' d'' : Disk} {m n : Nat}
    (h : d.Takes goal (m, d')) (h' : d'.Takes goal' (n, d'')) (hgoal : Lasting goal')
    (ht : d.tree.Linkless) : d.Takes (fun d l => goal d l ∨ goal' d l) (m + n, d'') := by
  obtain ⟨lost, hnodup, hlost, rfl⟩ := h.counted
  obtain ⟨lost', hnodup', hlost', rfl⟩ := h'.counted
  obtain ⟨hboth, hmem⟩ := nodup_append_of_loses h.strips.fades.shrinks h'.strips.fades.shrinks
    hnodup hnodup' hlost hlost'
  exact ⟨h.strips.trans h'.strips hgoal ht, lost ++ lost', hboth, hmem, by simp⟩

/-- What a later removal takes is what it would take from the first disk and was not gone. -/
theorem Strips.exists_lost {gone : Location → Prop} {goal : Disk → Location → Prop} {d d' : Disk}
    {removed : Nat × Disk} (h : d.Strips gone d') (h' : d'.Takes goal removed)
    (hgoal : Lasting goal) (ht : d.tree.Linkless) :
    ∃ lost : List Location, lost.Nodup ∧ (∀ l, l ∈ lost ↔ d'.tree.Loses removed.2.tree l) ∧
      (∀ l, l ∈ lost ↔ goal d l ∧ ¬ gone l) ∧ removed.1 = lost.length := by
  obtain ⟨lost, hnodup, hmem, hcount⟩ := h'.counted
  refine ⟨lost, hnodup, hmem, fun l => ?_, hcount⟩
  rw [hmem, h'.strips.loses_iff hgoal.file, hgoal.iff h.fades ht]
  refine and_congr_right fun hl => not_congr ?_
  obtain ⟨content, mode, hf⟩ := hgoal.file hl
  exact h.node?_eq_none_iff hf

end Disk
end StatusBadges
