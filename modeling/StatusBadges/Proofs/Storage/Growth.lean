import StatusBadges.Proofs.Storage.Lookup

/-!
# Trees that grow

Writing a file and making a directory let a tree grow: directories and links stay what they are, a
file stays a file, and no link is new. Where a path leads in a tree it leads in every tree that grew
from it (`resolve_of_grows`), and a process stays in its working directory
(`anchor_of_directories`). So what one write has made is still at its path after the writes that
follow.
-/

namespace StatusBadges

namespace Tree

/-! ## Growth -/

/-- A tree that grew out of another one. -/
structure Grows (t u : Tree) : Prop where
  directory : ∀ {l}, t.node? l = some .directory → u.node? l = some .directory
  file : ∀ {l c m}, t.node? l = some (.file c m) → ∃ c' m', u.node? l = some (.file c' m')
  link : ∀ {l p}, u.node? l = some (.link p) ↔ t.node? l = some (.link p)

namespace Grows

theorem refl (t : Tree) : Grows t t :=
  ⟨id, fun h => ⟨_, _, h⟩, Iff.rfl⟩

theorem trans {t u v : Tree} (h : Grows t u) (h' : Grows u v) : Grows t v := by
  refine ⟨fun hd => h'.directory (h.directory hd), fun hf => ?_, h'.link.trans h.link⟩
  obtain ⟨c, m, hu⟩ := h.file hf
  exact h'.file hu

/-- Putting a file in the place of a file, or anything but a link where nothing is. -/
theorem put {t : Tree} {l : Location} {n : Node} (hn : ∀ p, n ≠ .link p)
    (hl : t.node? l = none ∨ n.isFile = true ∧ ∃ c m, t.node? l = some (.file c m)) :
    Grows t (t.put l n) := by
  by_cases ha : t.accepts l = true
  · constructor
    · intro k hk
      rw [node?_put ha]
      split
      · next e =>
        subst e
        rcases hl with h | ⟨-, c, m, h⟩ <;> rw [h] at hk <;> cases hk
      · exact hk
    · intro k c m hk
      rw [node?_put ha]
      split
      · next e =>
        subst e
        rcases hl with h | ⟨hf, -⟩
        · rw [h] at hk; cases hk
        · cases n with
          | file c' m' => exact ⟨c', m', rfl⟩
          | directory => cases hf
          | link p => cases hf
      · exact ⟨c, m, hk⟩
    · intro k p
      rw [node?_put ha]
      split
      · next e =>
        subst e
        constructor
        · intro h
          cases h
          exact absurd rfl (hn p)
        · intro h
          rcases hl with h' | ⟨-, c, m, h'⟩ <;> rw [h'] at h <;> cases h
      · exact Iff.rfl
  · rw [Tree.put, dif_neg ha]
    exact refl t

end Grows

/-! ## Lookups stay -/

/-- A walk that does not fail goes the same way in a tree that grew. -/
theorem walk_of_grows {t u : Tree} (hg : Grows t u) {l : Location} {xs : List Name} {w : Walk}
    (h : t.walk l xs = w) (hw : ∀ cause, w ≠ .failed cause) : u.walk l xs = w := by
  induction xs generalizing l with
  | nil => exact h
  | cons s xs ih =>
    by_cases hd : s = ['.']
    · simp only [walk, if_pos hd] at h ⊢
      exact ih h
    by_cases hu : s = ['.', '.']
    · simp only [walk, if_neg hd, if_pos hu] at h ⊢
      exact ih h
    by_cases hr : Location.isRemoved l = true
    · simp only [walk, if_neg hd, if_neg hu, if_pos hr] at h
      exact absurd h.symm (hw _)
    by_cases hn : maxNameOctets < octetCount s
    · simp only [walk, if_neg hd, if_neg hu, if_neg hr, if_pos hn] at h
      exact absurd h.symm (hw _)
    simp only [walk, if_neg hd, if_neg hu, if_neg hr, if_neg hn] at h ⊢
    cases hnode : t.node? (l ++ [s]) with
    | some n =>
      rw [hnode] at h
      cases n with
      | directory => rw [hg.directory hnode]; exact ih h
      | file c m =>
        obtain ⟨c', m', hu'⟩ := hg.file hnode
        rw [hu']
        exact h
      | link p => rw [hg.link.2 hnode]; exact h
    | none =>
      rw [hnode] at h
      simp only at h
      split at h
      · next hlast =>
        -- Whatever is new at the missing name ends the walk there as well.
        obtain ⟨rfl, hl⟩ := hlast
        cases hnode' : u.node? (l ++ [s]) with
        | none =>
          simp only [hg.directory hl, and_self, if_true]
          exact h
        | some n =>
          cases n with
          | directory => exact h
          | file c m => exact h
          | link p => rw [hg.link.1 hnode'] at hnode; cases hnode
      · exact absurd h.symm (hw _)

theorem followWithin_of_grows {t u : Tree} (hg : Grows t u) {b n : Nat} {l m : Location}
    {xs : List Name} (h : t.followWithin b l xs = .ok (m, n)) :
    u.followWithin b l xs = .ok (m, n) := by
  induction b generalizing l xs with
  | zero =>
    simp only [followWithin] at h ⊢
    cases hw : t.walk l xs with
    | arrived r => rw [hw] at h; rw [walk_of_grows hg hw (by simp)]; exact h
    | failed cause => rw [hw] at h; cases h
    | atLink d p left => rw [hw] at h; cases h
  | succ b ih =>
    simp only [followWithin] at h ⊢
    cases hw : t.walk l xs with
    | arrived r => rw [hw] at h; rw [walk_of_grows hg hw (by simp)]; exact h
    | failed cause => rw [hw] at h; cases h
    | atLink d p left => rw [hw] at h; rw [walk_of_grows hg hw (by simp)]; exact ih h

theorem follow_of_grows {t u : Tree} (hg : Grows t u) {l m : Location} {xs : List Name}
    (h : t.follow l xs = .ok m) : u.follow l xs = .ok m := by
  obtain ⟨n, hn⟩ := follow_eq_ok_iff.1 h
  exact follow_eq_ok_iff.2 ⟨n, followWithin_of_grows hg hn⟩

theorem leads_of_grows {t u : Tree} (hg : Grows t u) {l m : Location} {p : Path}
    (h : t.Leads l p m) : u.Leads l p m := by
  obtain ⟨b, n, hb⟩ := h
  exact ⟨b, n, followWithin_of_grows hg hb⟩

/-! ## Working directories -/

/-- No tree holds a directory that was removed. -/
theorem node?_concat_nil (t : Tree) (l : Location) : t.node? (l ++ [[]]) = none := by
  cases h : t.node? (l ++ [[]]) with
  | none => rfl
  | some n => exact absurd (by simp [Location.isRemoved]) (not_isRemoved_of_node? h)

theorem anchor_concat_nil (t : Tree) (l : Location) :
    t.anchor (l ++ [[]]) = t.anchor l ++ [[]] := by
  rw [anchor, dif_neg (by rw [node?_concat_nil]; simp), List.dropLast_concat]

theorem anchor_anchor (t : Tree) (l : Location) : t.anchor (t.anchor l) = t.anchor l := by
  induction l using Tree.anchor.induct t with
  | case1 l h => rw [anchor_eq_self h, anchor_eq_self h]
  | case2 l h ih =>
    have e : t.anchor l = t.anchor l.dropLast ++ [[]] := by rw [anchor, dif_neg h]
    rw [e, anchor_concat_nil, ih]

/-- A working directory stays where it is while no directory goes. -/
theorem anchor_of_directories {t u : Tree}
    (hd : ∀ {l}, t.node? l = some .directory → u.node? l = some .directory) {l : Location}
    (h : t.anchor l = l) : u.anchor l = l := by
  induction l using Tree.anchor.induct t with
  | case1 l hl => exact anchor_eq_self (hd hl)
  | case2 l hl ih =>
    rw [anchor, dif_neg hl] at h
    have habove : t.anchor l.dropLast = l.dropLast := by
      have e := congrArg List.dropLast h
      rwa [List.dropLast_concat] at e
    rw [habove] at h
    rw [← h, anchor_concat_nil, ih habove]

end Tree

namespace Disk

/-- The working directory is a directory of the tree or one that was removed. A process starts in
one, and keeps to this whatever is done to the files (`settled_withTree`). -/
def Settled (d : Disk) : Prop := d.tree.anchor d.here = d.here

theorem settled_of_node? {d : Disk} (h : d.tree.node? d.here = some .directory) : d.Settled :=
  Tree.anchor_eq_self h

theorem settled_withTree (d : Disk) (t : Tree) : (d.withTree t).Settled :=
  t.anchor_anchor d.here

theorem Settled.through {d : Disk} (h : d.Settled) (trees : List Tree) :
    (d.through trees).Settled := by
  induction trees generalizing d with
  | nil => exact h
  | cons t trees ih => exact ih (d.settled_withTree t)

/-- A process stays where it is while the tree grows. -/
theorem Settled.withTree_eq {d : Disk} (h : d.Settled) {u : Tree} (hg : Tree.Grows d.tree u) :
    d.withTree u = ⟨u, d.here⟩ := by
  rw [withTree, Tree.anchor_of_directories hg.directory h]

theorem Settled.grows {d : Disk} (h : d.Settled) {u : Tree} (hg : Tree.Grows d.tree u) :
    (⟨u, d.here⟩ : Disk).Settled :=
  Tree.anchor_of_directories hg.directory h

/-- **A path leads where it led before** in a tree that grew. -/
theorem resolve_of_grows {d : Disk} {u : Tree} (hg : Tree.Grows d.tree u) {p : Path}
    {l : Location} (h : d.resolve p = .ok l) : (⟨u, d.here⟩ : Disk).resolve p = .ok l := by
  unfold resolve at h ⊢
  cases hc : checkText p with
  | error cause => rw [hc] at h; cases h
  | ok _ =>
    rw [hc] at h
    exact Tree.follow_of_grows hg h

end Disk
end StatusBadges
