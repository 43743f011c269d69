import StatusBadges.Proofs.Storage.Growth
import StatusBadges.Proofs.Storage.Joined

/-!
# Trees without links

In a tree without symbolic links a lookup is a walk, and no limit on links matters
(`Linkless.follow_iff`). What is left of the limits is a matter of the text of a path: when it is
short enough, the path of a directory and a name give the entry of that name
(`Linkless.slot_child`).
-/

namespace StatusBadges

namespace Tree

/-- There are no symbolic links in the tree. -/
def Linkless (t : Tree) : Prop := ∀ l target, t.node? l ≠ some (.link target)

theorem linkless_iff {t : Tree} : t.Linkless ↔ ∀ l target, (l, .link target) ∉ t.entries := by
  constructor
  · intro ht l target hmem
    have hl : l ≠ [] := (t.rooted _ hmem).1
    exact ht l target ((node?_eq_some_iff hl).2 hmem)
  · intro ht l target hnode
    by_cases hl : l = []
    · subst hl
      cases hnode
    · exact ht l target ((node?_eq_some_iff hl).1 hnode)

theorem Linkless.of_grows {t u : Tree} (ht : t.Linkless) (hg : Grows t u) : u.Linkless :=
  fun l target hl => ht l target (hg.link.1 hl)

theorem Linkless.put {t : Tree} (ht : t.Linkless) (l : Location) {n : Node}
    (hn : ∀ target, n ≠ .link target) : (t.put l n).Linkless := by
  intro k target hk
  by_cases ha : t.accepts l = true
  · rw [node?_put ha] at hk
    split at hk
    · exact hn target (Option.some.inj hk)
    · exact ht k target hk
  · rw [Tree.put, dif_neg ha] at hk
    exact ht k target hk

/-- The names on the way to a directory hold no NUL, since those of a tree are plain. -/
theorem nul_notMem_of_walk {t : Tree} {l m : Location} {xs : List Name}
    (h : t.walk l (xs ++ [['.']]) = .arrived m) : ∀ x ∈ xs, '\x00' ∉ x := by
  induction xs generalizing l with
  | nil => simp
  | cons s xs ih =>
    rw [List.cons_append] at h
    rw [List.forall_mem_cons]
    by_cases hd : s = ['.']
    · rw [walk, if_pos hd] at h
      exact ⟨by simp [hd], ih h⟩
    by_cases hu : s = ['.', '.']
    · rw [walk, if_neg hd, if_pos hu] at h
      exact ⟨by simp [hu], ih h⟩
    simp only [walk, if_neg hd, if_neg hu] at h
    split at h
    · cases h
    split at h
    · cases h
    cases hnode : t.node? (l ++ [s]) with
    | none => simp [hnode] at h
    | some n =>
      have hplain := isPlain_of_node? hnode s (by simp)
      obtain ⟨-, -, -, -, hnul⟩ := Name.isPlain_iff.1 hplain
      rw [hnode] at h
      cases n with
      | directory => exact ⟨hnul, ih h⟩
      | file c m => simp at h
      | link target => cases h

namespace Linkless

variable {t : Tree} (ht : t.Linkless)
include ht

theorem walk_ne_atLink {l d : Location} {xs left : List Name} {target : Path} :
    t.walk l xs ≠ .atLink d target left := by
  induction xs generalizing l with
  | nil => exact fun h => by cases h
  | cons s xs ih =>
    intro h
    simp only [walk] at h
    split at h
    · exact ih h
    split at h
    · exact ih h
    split at h
    · cases h
    split at h
    · cases h
    split at h
    · exact ih h
    · split at h <;> cases h
    · next hnode => exact ht _ _ hnode
    · split at h <;> cases h

theorem followWithin_iff {b n : Nat} {l m : Location} {xs : List Name} :
    t.followWithin b l xs = .ok (m, n) ↔ t.walk l xs = .arrived m ∧ n = b := by
  cases hw : t.walk l xs with
  | arrived k => cases b <;> simp [followWithin, hw, eq_comm]
  | failed cause => cases b <;> simp [followWithin, hw]
  | atLink d target left => exact absurd hw ht.walk_ne_atLink

theorem reaches_iff {l m : Location} {xs : List Name} :
    t.Reaches l xs m ↔ t.walk l xs = .arrived m := by
  simp [Reaches, ht.followWithin_iff]

/-- **Names lead where they are followed to**, since no link is on the way. -/
theorem follow_iff {l m : Location} {xs : List Name} :
    t.follow l xs = .ok m ↔ t.Reaches l xs m := by
  rw [follow_eq_ok_iff, ht.reaches_iff]
  simp [ht.followWithin_iff]

theorem nul_notMem_of_leads {l r : Location} {p : Path} (h : t.Leads l p r)
    (hr : t.found? r = some .directory) : '\x00' ∉ p.chars := by
  have hwalk := ht.reaches_iff.1 (h.reaches_parts hr)
  intro hmem
  rcases Path.mem_chars hmem with e | ⟨part, hpart, hx⟩
  · cases e
  · exact nul_notMem_of_walk hwalk part hpart hx

end Linkless
end Tree

namespace Disk

namespace Linkless

variable {d : Disk} (ht : d.tree.Linkless)
include ht

/-- The path of a directory and a plain name give that name in that directory. -/
theorem slot_child {p : Path} {r : Location} {n : Name} (hp : d.tree.Leads d.here p r)
    (hr : d.tree.node? r = some .directory) (hn : n.isPlain = true)
    (hlen : ¬ maxNameOctets < octetCount n) (hfits : (p.child n).fits = true) :
    d.slot (p.child n) = .ok (r, some n) := by
  obtain ⟨hne, hdot, hup, hslash, hnul⟩ := Name.isPlain_iff.1 hn
  have hfound := Tree.found?_of_node? hr
  have hparts : (p.child n).parts = p.parts ++ [n] := Path.parts_child hslash hne
  have hcheck : checkText (p.child n) = .ok () :=
    checkText_join (Path.isAbsolute_mk hslash) hne (ht.nul_notMem_of_leads hp hfound) hnul hfits
  have hfollow : d.tree.follow (d.start (p.child n)) ((p.child n).parts.dropLast ++ [['.']]) =
      .ok r := by
    rw [ht.follow_iff, hparts, List.dropLast_concat, start, Tree.startOf,
      Path.isAbsolute_child hslash]
    exact hp.reaches_parts hfound
  unfold slot
  rw [hcheck, hfollow, hparts, List.getLast?_concat]
  simp [bind, Except.bind, isDots, hdot, hup, hr, hlen]

end Linkless
end Disk
end StatusBadges
