import StatusBadges.Proofs.Storage.Linkless
import StatusBadges.Proofs.Storage.Listing
import StatusBadges.Proofs.Storage.Writing

/-!
# Where a path arrives in another tree

A lookup depends on the directories on its way and on what it arrives at. A way without double dots
only goes down, so that a tree without links which has a node where it ends has the directories on
it too (`walk_of_node`). A way with double dots also goes through directories that do not lie above
its end, which the other tree must have as well (`Passable`).
-/

namespace StatusBadges

namespace Tree

/-! ## Working directories and their ends -/

theorem found?_of_anchor {t : Tree} {l : Location} (h : t.anchor l = l) :
    t.found? l = some .directory := by
  by_cases hl : t.node? l = some .directory
  · exact found?_of_node? hl
  · rw [anchor, dif_neg hl] at h
    rw [found?, if_pos (by rw [← h]; simp [Location.isRemoved])]

theorem anchor_dropLast {t : Tree} {l : Location} (h : t.anchor l = l) :
    t.anchor l.dropLast = l.dropLast := by
  by_cases hl : t.node? l = some .directory
  · exact anchor_eq_self (node?_dropLast hl)
  · rw [anchor, dif_neg hl] at h
    have e := congrArg List.dropLast h
    rwa [List.dropLast_concat] at e

/-- Behind a dot there is a directory. -/
theorem anchor_of_walk_dot {t : Tree} {l k : Location} {xs : List Name} (hl : t.anchor l = l)
    (h : t.walk l (xs ++ [['.']]) = .arrived k) : t.anchor k = k := by
  induction xs generalizing l with
  | nil =>
    cases h
    exact hl
  | cons s xs ih =>
    rw [List.cons_append] at h
    by_cases hd : s = ['.']
    · rw [walk, if_pos hd] at h
      exact ih hl h
    by_cases hu : s = ['.', '.']
    · rw [walk, if_neg hd, if_pos hu] at h
      exact ih (anchor_dropLast hl) h
    simp only [walk, if_neg hd, if_neg hu] at h
    split at h
    · cases h
    split at h
    · cases h
    cases hnode : t.node? (l ++ [s]) with
    | none => simp [hnode] at h
    | some n =>
      rw [hnode] at h
      cases n with
      | directory => exact ih (anchor_eq_self hnode) h
      | file content mode => simp at h
      | link target => cases h

theorem anchor_of_walk_atLink {t : Tree} {l k : Location} {target : Path} {xs left : List Name}
    (hl : t.anchor l = l) (h : t.walk l xs = .atLink k target left) : t.anchor k = k := by
  induction xs generalizing l with
  | nil => cases h
  | cons s xs ih =>
    by_cases hd : s = ['.']
    · rw [walk, if_pos hd] at h
      exact ih hl h
    by_cases hu : s = ['.', '.']
    · rw [walk, if_neg hd, if_pos hu] at h
      exact ih (anchor_dropLast hl) h
    simp only [walk, if_neg hd, if_neg hu] at h
    split at h
    · cases h
    split at h
    · cases h
    split at h
    · next hnode => exact ih (anchor_eq_self hnode) h
    · split at h <;> cases h
    · cases h
      exact hl
    · split at h <;> cases h

/-- Behind a dot there is a directory, also when links are followed on the way. -/
theorem anchor_of_followWithin_dot {t : Tree} {b j : Nat} {l k : Location} {xs : List Name}
    (hl : t.anchor l = l) (h : t.followWithin b l (xs ++ [['.']]) = .ok (k, j)) :
    t.anchor k = k := by
  induction b generalizing l xs with
  | zero =>
    rw [followWithin] at h
    cases hw : t.walk l (xs ++ [['.']]) with
    | arrived m =>
      rw [hw] at h
      cases h
      exact anchor_of_walk_dot hl hw
    | failed cause => rw [hw] at h; cases h
    | atLink directory target left => rw [hw] at h; cases h
  | succ b ih =>
    rw [followWithin] at h
    cases hw : t.walk l (xs ++ [['.']]) with
    | arrived m =>
      rw [hw] at h
      cases h
      exact anchor_of_walk_dot hl hw
    | failed cause => rw [hw] at h; cases h
    | atLink directory target left =>
      rw [hw] at h
      obtain ⟨left, rfl, -⟩ := walk_atLink_of_dot hw
      simp only [← List.append_assoc] at h
      refine ih ?_ h
      unfold startOf
      split
      · exact anchor_eq_self t.node?_nil
      · exact anchor_of_walk_atLink hl hw

/-- A walk that ends in a file ends with the name of that file. -/
theorem name_of_walk_file {t : Tree} {l m : Location} {xs : List Name} {content : Content}
    {mode : Nat} (hl : t.anchor l = l) (h : t.walk l xs = .arrived m)
    (hm : t.node? m = some (.file content mode)) :
    ∃ before k n, xs = before ++ [n] ∧ m = k ++ [n] ∧ n.isPlain = true := by
  induction xs generalizing l with
  | nil =>
    cases h
    have hfound := found?_of_anchor hl
    rw [found?_of_node? hm] at hfound
    cases hfound
  | cons s xs ih =>
    have hbehind {k : Location} (hk : t.anchor k = k) (h : t.walk k xs = .arrived m) :
        ∃ before k n, s :: xs = before ++ [n] ∧ m = k ++ [n] ∧ n.isPlain = true := by
      obtain ⟨before, k, n, rfl, hrest⟩ := ih hk h
      exact ⟨s :: before, k, n, rfl, hrest⟩
    by_cases hd : s = ['.']
    · rw [walk, if_pos hd] at h
      exact hbehind hl h
    by_cases hu : s = ['.', '.']
    · rw [walk, if_neg hd, if_pos hu] at h
      exact hbehind (anchor_dropLast hl) h
    simp only [walk, if_neg hd, if_neg hu] at h
    split at h
    · cases h
    split at h
    · cases h
    cases hnode : t.node? (l ++ [s]) with
    | none =>
      rw [hnode] at h
      simp only at h
      split at h
      · cases h
        rw [hnode] at hm
        cases hm
      · cases h
    | some n =>
      rw [hnode] at h
      cases n with
      | directory => exact hbehind (anchor_eq_self hnode) h
      | file c m' =>
        simp only at h
        split at h
        · next hnil =>
          cases h
          subst hnil
          exact ⟨[], l, s, rfl, rfl, isPlain_of_node? hnode s (by simp)⟩
        · cases h
      | link target => cases h

theorem eq_concat_of_walk {t : Tree} {l m : Location} {n : Name} (hdot : n ≠ ['.'])
    (hup : n ≠ ['.', '.']) (h : t.walk l [n] = .arrived m) :
    m = l ++ [n] ∧ ¬ maxNameOctets < octetCount n := by
  simp only [walk, if_neg hdot, if_neg hup] at h
  split at h
  · cases h
  split at h
  · cases h
  next hlong =>
  refine ⟨?_, hlong⟩
  split at h
  · cases h
    rfl
  · cases h
    rfl
  · cases h
  · split at h <;> cases h
    rfl

/-! ## Ways in another tree -/

/-- A walk without double dots goes down. -/
theorem prefix_of_walk {t : Tree} {l m : Location} {xs : List Name} (hup : ['.', '.'] ∉ xs)
    (h : t.walk l xs = .arrived m) : l <+: m := by
  induction xs generalizing l with
  | nil =>
    cases h
    exact List.prefix_rfl
  | cons s xs ih =>
    obtain ⟨hs, hrest⟩ : ['.', '.'] ≠ s ∧ ['.', '.'] ∉ xs := by simpa using hup
    have hdown : l <+: l ++ [s] := List.prefix_append l [s]
    simp only [walk, if_neg (Ne.symm hs)] at h
    split at h
    · exact ih hrest h
    split at h
    · cases h
    split at h
    · cases h
    split at h
    · exact hdown.trans (ih hrest h)
    · split at h
      · cases h
        exact hdown
      · cases h
    · cases h
    · split at h
      · cases h
        exact hdown
      · cases h

/-- Ways through one tree are ways through another when these have the same directories, or when
they go down only. -/
def Passable (t u : Tree) (xs : List Name) : Prop :=
  (∀ l, t.node? l = some .directory → u.node? l = some .directory) ∨ ['.', '.'] ∉ xs

theorem Passable.tail {t u : Tree} {s : Name} {xs : List Name} (h : Passable t u (s :: xs)) :
    Passable t u xs :=
  h.imp_right fun hup hmem => hup (List.mem_cons_of_mem s hmem)

/-- **Names lead to what another tree has where they lead.** -/
theorem walk_of_node {t u : Tree} (hu : u.Linkless) {l m : Location} {xs : List Name} {n : Node}
    (hpass : Passable t u xs) (h : t.walk l xs = .arrived m) (hm : u.node? m = some n)
    (hdir : t.node? m = some .directory → n = .directory) : u.walk l xs = .arrived m := by
  have hlast {l : Location} {s : Name} (hm : u.node? (l ++ [s]) = some n)
      (hs : ¬ maxNameOctets < octetCount s) : u.walk l [s] = .arrived (l ++ [s]) := by
    rcases walk_names hm fun target e => hu _ target (e ▸ hm) with ⟨-, hw⟩ | ⟨hlong, -⟩
    · exact hw
    · exact absurd (fun x hx => List.mem_singleton.1 hx ▸ hs) hlong
  induction xs generalizing l with
  | nil => exact h
  | cons s xs ih =>
    by_cases hd : s = ['.']
    · rw [walk, if_pos hd] at h ⊢
      exact ih hpass.tail h
    by_cases hup : s = ['.', '.']
    · rw [walk, if_neg hd, if_pos hup] at h ⊢
      exact ih hpass.tail h
    simp only [walk, if_neg hd, if_neg hup] at h
    split at h
    · cases h
    next hremoved =>
    split at h
    · cases h
    next hlong =>
    cases hnode : t.node? (l ++ [s]) with
    | none =>
      rw [hnode] at h
      simp only at h
      split at h
      · next hnil =>
        cases h
        rw [hnil.1]
        exact hlast hm hlong
      · cases h
    | some k =>
      rw [hnode] at h
      cases k with
      | directory =>
        have hgo : u.node? (l ++ [s]) = some .directory := by
          rcases hpass with hsame | hdown
          · exact hsame _ hnode
          · have hpre := prefix_of_walk (fun hmem => hdown (List.mem_cons_of_mem s hmem)) h
            by_cases e : l ++ [s] = m
            · rw [e, hm, hdir (e ▸ hnode)]
            · exact directory_above hm hpre e
        simp only [walk, if_neg hd, if_neg hup, if_neg hremoved, if_neg hlong, hgo]
        exact ih hpass.tail h
      | file content mode =>
        simp only at h
        split at h
        · next hnil =>
          cases h
          rw [hnil]
          exact hlast hm hlong
        · cases h
      | link target => cases h

end Tree

namespace Disk

/-! ## Paths -/

theorem resolve_eq_ok_iff_walk {d : Disk} (ht : d.tree.Linkless) {p : Path} {m : Location} :
    d.resolve p = .ok m ↔
      checkText p = .ok () ∧ d.tree.walk (d.start p) p.steps = .arrived m := by
  rw [resolve_eq_ok, ht.follow_iff, ht.reaches_iff]

/-- A process starts every lookup in a directory. -/
theorem anchor_start {d : Disk} (hs : d.Settled) (p : Path) :
    d.tree.anchor (d.start p) = d.start p := by
  unfold start Tree.startOf
  split
  · exact Tree.anchor_eq_self d.tree.node?_nil
  · exact hs

theorem resolve_of_node {d d' : Disk} (ht : d.tree.Linkless) (hu : d'.tree.Linkless)
    (hhere : d'.here = d.here) {p : Path} (hpass : Tree.Passable d.tree d'.tree p.steps)
    {m : Location} {n : Node} (hp : d.resolve p = .ok m) (hm : d'.tree.node? m = some n)
    (hdir : d.tree.node? m = some .directory → n = .directory) : d'.resolve p = .ok m := by
  obtain ⟨hcheck, hwalk⟩ := (resolve_eq_ok_iff_walk ht).1 hp
  have hstart : d'.start p = d.start p := by rw [start, start, hhere]
  rw [resolve_eq_ok_iff_walk hu, hstart]
  exact ⟨hcheck, Tree.walk_of_node hu hpass hwalk hm hdir⟩

theorem isFile_iff {d : Disk} {p : Path} :
    d.isFile p = true ↔ ∃ content mode, d.node? p = some (.file content mode) := by
  unfold isFile
  cases d.node? p with
  | none => simp
  | some n => cases n <;> simp [Node.isFile]

theorem readText_eq_ok {d : Disk} {p : Path} {text : String} :
    d.readText p = .ok text ↔
      ∃ mode, d.node? p = some (.file (.text text) mode) ∧ Node.mayRead mode = true := by
  unfold readText node?
  cases d.resolve p with
  | error cause => simp [bind, Except.bind]
  | ok l =>
    simp only [bind, Except.bind]
    cases d.tree.found? l with
    | none => simp
    | some n =>
      cases n with
      | directory => simp
      | link target => simp
      | file content mode =>
        by_cases hmode : Node.mayRead mode = true
        · cases content with
          | raw bytes => simp [hmode]
          | text t =>
            simp only [if_pos hmode, Except.ok.injEq, Option.some.injEq, Node.file.injEq,
              Content.text.injEq]
            constructor
            · rintro rfl
              exact ⟨mode, ⟨rfl, rfl⟩, hmode⟩
            · rintro ⟨_, ⟨rfl, rfl⟩, -⟩
              rfl
        · simp only [if_neg hmode, reduceCtorEq, Option.some.injEq, Node.file.injEq, false_iff]
          rintro ⟨_, ⟨rfl, rfl⟩, hm⟩
          exact hmode hm

section File

variable {d : Disk} (hs : d.Settled) (ht : d.tree.Linkless) {p : Path} {content : Content}
  {mode : Nat}
include hs ht

/-- A path that shows a file ends with the name of the file. -/
theorem exists_name_of_node?_file (h : d.node? p = some (.file content mode)) :
    ∃ before k n, p.parts = before ++ [n] ∧ p.endsWithSlash = false ∧ n.isPlain = true ∧
      d.resolve p = .ok (k ++ [n]) ∧ d.tree.node? (k ++ [n]) = some (.file content mode) := by
  obtain ⟨m, hp, hm⟩ := node?_eq_file_iff.1 h
  obtain ⟨-, hwalk⟩ := (resolve_eq_ok_iff_walk ht).1 hp
  obtain ⟨before, k, n, hsteps, rfl, hn⟩ :=
    Tree.name_of_walk_file (anchor_start hs p) hwalk hm
  obtain ⟨-, hdot, -⟩ := Name.isPlain_iff.1 hn
  cases hslash : p.endsWithSlash with
  | true =>
    rw [Path.steps, hslash, if_pos rfl] at hsteps
    obtain ⟨-, e⟩ := List.append_inj' hsteps rfl
    exact absurd (List.singleton_inj.1 e).symm hdot
  | false =>
    rw [Path.steps, hslash] at hsteps
    exact ⟨before, k, n, by simpa using hsteps, rfl, hn, hp, hm⟩

/-- Without links a file is found at the end of a path whether or not a link there is followed. -/
theorem linkNode?_eq_file_iff :
    d.linkNode? p = some (.file content mode) ↔ d.node? p = some (.file content mode) := by
  constructor
  · intro h
    unfold linkNode? at h
    split at h
    · exact h
    next hslash =>
    cases hslot : d.slot p with
    | error cause => simp [hslot] at h
    | ok found =>
      obtain ⟨directory, name⟩ := found
      rw [hslot] at h
      cases name with
      | none => exact h
      | some name =>
        simp only at h
        split at h
        · exact h
        · next hdots =>
          obtain ⟨before, hparts, hcheck, hfollow, hdir⟩ := slot_eq_ok hslot
          obtain ⟨-, hlen⟩ := hdir (by simpa using hdots)
          have hname : d.tree.Reaches directory [name] (directory ++ [name]) :=
            (Tree.reaches_names_iff h fun _ e => by cases e).2
              ⟨fun x hx => List.mem_singleton.1 hx ▸ hlen, rfl⟩
          refine node?_of_resolve (l := directory ++ [name]) (resolve_eq_ok.2 ⟨hcheck, ?_⟩) h
          rw [ht.follow_iff, Path.steps, hparts, if_neg hslash, List.append_nil,
            Tree.reaches_append_iff (ht.follow_iff.1 hfollow)]
          exact hname
  · intro h
    obtain ⟨before, k, n, hparts, hslash, hn, hp, hm⟩ := exists_name_of_node?_file hs ht h
    obtain ⟨hne, hdot, hup, -, -⟩ := Name.isPlain_iff.1 hn
    obtain ⟨hcheck, hfollow⟩ := resolve_eq_ok.1 hp
    rw [ht.follow_iff, Path.steps, hparts, hslash, if_neg (by simp), List.append_nil,
      Tree.reaches_append_iff_exists (by simp)] at hfollow
    obtain ⟨directory, habove, hname⟩ := hfollow
    obtain ⟨e, hlen⟩ := Tree.eq_concat_of_walk hdot hup (ht.reaches_iff.1 hname)
    obtain rfl : k = directory := (List.append_inj' e rfl).1
    have hk : d.tree.node? k = some .directory := by
      have hup := Tree.node?_dropLast hm
      rwa [List.dropLast_concat] at hup
    have hdots : isDots n = false := by simp [isDots, hdot, hup]
    have hslot : d.slot p = .ok (k, some n) := by
      unfold slot
      rw [hcheck, hparts, List.dropLast_concat, List.getLast?_concat, ht.follow_iff.2 habove]
      simp [bind, Except.bind, hdots, hk, hlen]
    simp [linkNode?, hslash, hslot, hdots, hm]

end File

end Disk
end StatusBadges
