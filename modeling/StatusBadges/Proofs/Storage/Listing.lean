import StatusBadges.Proofs.Path.Components
import StatusBadges.Proofs.Storage.Joined

/-!
# Files in and below directories

The names of what a tree holds lead to it where they are short enough to be looked up
(`reaches_names_iff`), and a lookup that ends deep in a tree has gone through short names only
(`short_of_reaches`). A path to a directory leads where its components say, however it is written
(`leads_of_components`), and its names behind the path of a directory say where a file is
(`resolve_join_ofNames`).
-/

namespace StatusBadges

/-- Every name is short enough to be looked up. -/
def Short (names : List Name) : Prop := ∀ n ∈ names, ¬ maxNameOctets < octetCount n

namespace Tree

/-! ## Ways down -/

theorem plain_of_node? {t : Tree} {l : Location} {names : List Name} {n : Node}
    (h : t.node? (l ++ names) = some n) : Path.Plain names :=
  fun name hm => isPlain_of_node? h name (List.mem_append_right _ hm)

theorem exists_node_of_prefix {t : Tree} {l : Location} {pre names : List Name} {n : Node}
    (hpre : pre <+: names) (hn : t.node? (l ++ names) = some n) :
    ∃ m, t.node? (l ++ pre) = some m := by
  by_cases e : pre = names
  · exact ⟨n, e ▸ hn⟩
  · exact ⟨_, directory_above hn ((List.prefix_append_right_inj l).2 hpre) (by simpa using e)⟩

/-- A walk along the names of what a tree holds gets there unless a name is too long. -/
theorem walk_names {t : Tree} {l : Location} {names : List Name} {n : Node}
    (h : t.node? (l ++ names) = some n) (hn : ∀ target, n ≠ .link target) :
    (Short names ∧ t.walk l names = .arrived (l ++ names)) ∨
      (¬ Short names ∧ t.walk l names = .failed .nameTooLong) := by
  induction names generalizing l with
  | nil => exact Or.inl ⟨fun _ hm => absurd hm List.not_mem_nil, by simp [walk]⟩
  | cons s rest ih =>
    obtain ⟨-, hdot, hup, -, -⟩ := Name.isPlain_iff.1 (plain_of_node? h s List.mem_cons_self)
    have hl : t.node? l = some .directory := directory_above h ⟨s :: rest, rfl⟩ (by simp)
    have hremoved := not_isRemoved_of_node? hl
    simp only [walk, if_neg hdot, if_neg hup, if_neg hremoved]
    by_cases hlen : maxNameOctets < octetCount s
    · rw [if_pos hlen]
      exact Or.inr ⟨fun hshort => hshort s List.mem_cons_self hlen, rfl⟩
    · have hshort : Short (s :: rest) ↔ Short rest :=
        List.forall_mem_cons.trans (and_iff_right hlen)
      rw [if_neg hlen, hshort]
      cases rest with
      | nil =>
        refine Or.inl ⟨fun _ hm => absurd hm List.not_mem_nil, ?_⟩
        rw [h]
        cases n with
        | directory => rfl
        | file content mode => rfl
        | link target => exact absurd rfl (hn target)
      | cons next more =>
        have hassoc : l ++ s :: next :: more = (l ++ [s]) ++ next :: more := by simp
        rw [hassoc] at h ⊢
        rw [directory_above h ⟨_, rfl⟩ (by simp)]
        exact ih h

/-- **The names of what a tree holds lead to it**, and nowhere else, if each is short enough. -/
theorem reaches_names_iff {t : Tree} {l m : Location} {names : List Name} {n : Node}
    (h : t.node? (l ++ names) = some n) (hn : ∀ target, n ≠ .link target) :
    t.Reaches l names m ↔ Short names ∧ m = l ++ names := by
  constructor
  · rintro ⟨b, j, hb⟩
    rcases walk_names h hn with ⟨hshort, hw⟩ | ⟨hlong, hw⟩
    · refine ⟨hshort, ?_⟩
      cases b <;> simp [followWithin, hw] at hb <;> exact hb.1.symm
    · cases b <;> simp [followWithin, hw] at hb
  · rintro ⟨hshort, rfl⟩
    rcases walk_names h hn with ⟨-, hw⟩ | ⟨hlong, -⟩
    · exact ⟨0, 0, by simp [followWithin, hw]⟩
    · exact absurd hshort hlong

/-- Names behind the path of a directory lead where they lead from the directory. -/
theorem leads_join_ofNames_iff {t : Tree} {l r : Location} {p : Path} {names : List Name}
    (hp : t.Leads l p r) (hr : t.found? r = some .directory) (h : Path.Plain names) (k : Location) :
    t.Leads l (p.join (.ofNames names)) k ↔ t.Reaches r names k := by
  have hrelative := Path.isAbsolute_ofNames h
  rw [leads_join_iff hrelative hp hr, Leads, startOf, hrelative, Path.steps_ofNames h]
  rfl

/-- One name that leads to a directory is that of an entry that is no file. -/
theorem entry_of_followWithin {t : Tree} {b j : Nat} {l r : Location} {s : Name} (hdot : s ≠ ['.'])
    (hup : s ≠ ['.', '.']) (h : t.followWithin b l [s] = .ok (r, j))
    (hr : t.node? r = some .directory) : t.node? l = some .directory ∧
      ¬ maxNameOctets < octetCount s ∧ ∃ n, t.node? (l ++ [s]) = some n ∧ n.isFile = false := by
  have habove {n : Node} (hn : t.node? (l ++ [s]) = some n) : t.node? l = some .directory :=
    directory_above hn ⟨[s], rfl⟩ (by simp)
  have harrived {k : Location} (hw : t.walk l [s] = .arrived k) : k = r := by
    cases b <;> simp [followWithin, hw] at h <;> exact h.1
  have hfailed {cause : Cause} : t.walk l [s] ≠ .failed cause := by
    intro hw
    cases b <;> simp [followWithin, hw] at h
  simp only [walk, if_neg hdot, if_neg hup] at harrived hfailed
  split at hfailed
  · exact absurd rfl hfailed
  split at hfailed
  · exact absurd rfl hfailed
  next hremoved hlen =>
  simp only [if_neg hremoved, if_neg hlen] at harrived
  cases hnode : t.node? (l ++ [s]) with
  | none =>
    simp only [hnode, true_and] at harrived hfailed
    split at hfailed
    · next hl =>
      rw [if_pos hl] at harrived
      rw [← harrived rfl, hnode] at hr
      cases hr
    · exact absurd rfl hfailed
  | some n =>
    refine ⟨habove hnode, hlen, n, rfl, ?_⟩
    cases n with
    | directory => rfl
    | link target => rfl
    | file content mode =>
      simp only [hnode, if_true] at harrived
      rw [← harrived rfl, hnode] at hr
      cases hr

/-! ## Ways up and down -/

/-- One can go from `l` to `m` up, and then down through short names. -/
def Entered (l m : Location) : Prop := ∃ k rest, k <+: l ∧ m = k ++ rest ∧ Short rest

namespace Entered

variable {l m : Location}

theorem refl (l : Location) : Entered l l := ⟨l, [], List.prefix_rfl, by simp, by simp [Short]⟩

/-- Absolute links lead on from the root. -/
theorem root (l : Location) : Entered l [] := ⟨[], [], List.nil_prefix, rfl, by simp [Short]⟩

theorem up (h : Entered l m) : Entered l m.dropLast := by
  obtain ⟨k, rest, hk, rfl, hshort⟩ := h
  rcases List.eq_nil_or_concat rest with rfl | ⟨init, s, rfl⟩
  · exact ⟨k.dropLast, [], (List.dropLast_prefix k).trans hk, by simp, by simp [Short]⟩
  · exact ⟨k, init, hk, by simp, fun n hn => hshort n (by simp [hn])⟩

theorem down (h : Entered l m) {s : Name} (hs : ¬ maxNameOctets < octetCount s) :
    Entered l (m ++ [s]) := by
  obtain ⟨k, rest, hk, rfl, hshort⟩ := h
  refine ⟨k, rest ++ [s], hk, by simp, fun n hn => ?_⟩
  rcases List.mem_append.1 hn with hn | hn
  · exact hshort n hn
  · rwa [List.mem_singleton.1 hn]

/-- What lies below the start is reached through short names. -/
theorem short {below : List Name} (h : Entered l (l ++ below)) : Short below := by
  obtain ⟨k, rest, ⟨more, rfl⟩, e, hshort⟩ := h
  rw [List.append_assoc, List.append_cancel_left_eq] at e
  exact fun n hn => hshort n (e ▸ List.mem_append_right _ hn)

theorem walk {t : Tree} {k : Location} {xs : List Name} (h : Entered l k) :
    (∀ m, t.walk k xs = .arrived m → Entered l m) ∧
      ∀ d p left, t.walk k xs = .atLink d p left → Entered l d := by
  induction xs generalizing k with
  | nil => exact ⟨fun m hm => by cases hm; exact h, fun _ _ _ hd => by cases hd⟩
  | cons s xs ih =>
    simp only [Tree.walk]
    split
    · exact ih h
    split
    · exact ih h.up
    split
    · simp
    split
    · simp
    next hlen =>
    split
    · exact ih (h.down hlen)
    · split
      · exact ⟨fun m hm => by cases hm; exact h.down hlen, fun _ _ _ hd => by cases hd⟩
      · simp
    · exact ⟨fun m hm => (by cases hm), fun _ _ _ hd => by cases hd; exact h⟩
    · split
      · exact ⟨fun m hm => by cases hm; exact h.down hlen, fun _ _ _ hd => by cases hd⟩
      · simp

theorem followWithin {t : Tree} {b n : Nat} {k : Location} {xs : List Name} (h : Entered l k)
    (hm : t.followWithin b k xs = .ok (m, n)) : Entered l m := by
  induction b generalizing k xs with
  | zero =>
    rw [Tree.followWithin] at hm
    cases hw : t.walk k xs with
    | arrived r =>
      rw [hw] at hm
      cases hm
      exact h.walk.1 _ hw
    | failed cause => rw [hw] at hm; cases hm
    | atLink d p left => rw [hw] at hm; cases hm
  | succ b ih =>
    rw [Tree.followWithin] at hm
    cases hw : t.walk k xs with
    | arrived r =>
      rw [hw] at hm
      cases hm
      exact h.walk.1 _ hw
    | failed cause => rw [hw] at hm; cases hm
    | atLink d p left =>
      rw [hw] at hm
      refine ih ?_ hm
      unfold startOf
      split
      · exact root l
      · exact h.walk.2 d p left hw

end Entered

theorem Reaches.entered {t : Tree} {l m : Location} {xs : List Name} (h : t.Reaches l xs m) :
    Entered l m := by
  obtain ⟨b, n, hb⟩ := h
  exact (Entered.refl l).followWithin hb

/-! ## Spellings of a path -/

/-- Dots on the way to a directory do nothing. -/
theorem reaches_dotless_iff {t : Tree} {l m : Location} (xs : List Name) :
    t.Reaches l (xs.filter (· ≠ ['.']) ++ [['.']]) m ↔ t.Reaches l (xs ++ [['.']]) m := by
  induction xs generalizing l with
  | nil => rfl
  | cons s xs ih =>
    by_cases hs : s = ['.']
    · subst hs
      rw [List.filter_cons_of_neg (by simp), ih]
      exact (reaches_undotted_iff (by simp [Path.undotted])).symm
    · have hsplit (ys : List Name) : s :: ys ++ [['.']] = [s] ++ (ys ++ [['.']]) := rfl
      rw [List.filter_cons_of_pos (by simpa using hs), hsplit, hsplit,
        reaches_append_iff_exists (by simp), reaches_append_iff_exists (by simp)]
      simp only [ih]

/-- **A path to a directory leads where its components say**, however it is written. -/
theorem leads_of_components {t : Tree} {l m : Location} {p q : Path}
    (hc : p.components = q.components) (hp : t.Leads l p m)
    (hm : t.found? m = some .directory) : t.Leads l q m := by
  obtain ⟨habs, hparts⟩ := Path.dotless_of_components hc
  apply leads_of_reaches_parts
  have hstart : startOf q l = startOf p l := by simp only [startOf, habs]
  rw [hstart, ← reaches_dotless_iff]
  have hfirst := (reaches_dotless_iff _).2 (hp.reaches_parts hm)
  unfold Path.dotless at hparts
  rwa [← hparts]

/-! ## Entries -/

theorem mem_filesBelow_iff {t : Tree} {l : Location} {names : List Name} {n : Node} :
    (names, n) ∈ t.filesBelow l ↔
      t.node? (l ++ names) = some n ∧ names ≠ [] ∧ n.isFile = true := by
  simp only [filesBelow, List.mem_filterMap]
  constructor
  · rintro ⟨⟨k, m⟩, hmem, hsome⟩
    split at hsome
    · next hif =>
      simp only [Bool.and_eq_true, List.isPrefixOf_iff_prefix, bne_iff_ne, ne_eq] at hif
      obtain ⟨⟨⟨more, rfl⟩, hne⟩, hfile⟩ := hif
      simp only [List.drop_left, Option.some.injEq, Prod.mk.injEq] at hsome
      obtain ⟨rfl, rfl⟩ := hsome
      refine ⟨(node?_eq_some_iff ?_).2 hmem, by simpa using hne, hfile⟩
      exact (t.rooted _ hmem).1
    · cases hsome
  · rintro ⟨hnode, hne, hfile⟩
    refine ⟨(l ++ names, n), (node?_eq_some_iff (by simp [hne])).1 hnode, ?_⟩
    simp [List.isPrefixOf_iff_prefix, hne, hfile]

theorem nodup_names (t : Tree) (l : Location) : (t.names l).Nodup := by
  have e : t.names l = (t.entries.map (·.1)).filterMap fun k =>
      if k.dropLast = l then k.getLast? else none := by
    rw [List.filterMap_map]
    rfl
  rw [e]
  have hconcat {k : Location} {name : Name}
      (h : (if k.dropLast = l then k.getLast? else none) = some name) : k = l ++ [name] := by
    split at h
    · next hdrop =>
      obtain ⟨before, rfl⟩ := List.getLast?_eq_some_iff.1 h
      rw [← hdrop, List.dropLast_concat]
    · cases h
  refine List.Pairwise.filterMap _ (fun k k' hne name hk name' hk' => ?_) t.distinct
  rintro rfl
  exact hne ((hconcat hk).trans (hconcat hk').symm)

end Tree

namespace Disk

theorem resolve_eq_ok {d : Disk} {p : Path} {l : Location} :
    d.resolve p = .ok l ↔ checkText p = .ok () ∧ d.tree.follow (d.start p) p.steps = .ok l := by
  unfold resolve
  cases checkText p <;> simp [bind, Except.bind]

/-- A path that is resolved to a directory is also followed to it along its parts and a dot. -/
theorem followWithin_parts {d : Disk} {p : Path} {r : Location} (hp : d.resolve p = .ok r)
    (hr : d.tree.found? r = some .directory) : ∃ n,
      d.tree.followWithin maxLinks (d.start p) (p.parts ++ [['.']]) = .ok (r, n) := by
  obtain ⟨n, hn⟩ := Tree.follow_eq_ok_iff.1 (resolve_eq_ok.1 hp).2
  refine ⟨n, ?_⟩
  unfold Path.steps at hn
  split at hn
  · exact hn
  · rw [List.append_nil] at hn
    exact Tree.followWithin_dot_of_found hn hr p.nil_notMem_parts

/-- A file by one name behind the path of a directory is the entry of that name. -/
theorem resolve_child_of_isFile {d : Disk} {p : Path} {r : Location} {s : Name} {n : Node}
    (hp : d.tree.Leads d.here p r) (hr : d.tree.node? r = some .directory)
    (hn : d.tree.node? (r ++ [s]) = some n) (hlink : ∀ target, n ≠ .link target)
    (hfile : d.isFile (p.child s) = true) :
    Short [s] ∧ d.resolve (p.child s) = .ok (r ++ [s]) ∧ n.isFile = true := by
  have hchild : p.child s = p.join (.ofNames [s]) := rfl
  cases hres : d.resolve (p.child s) with
  | error cause => simp [isFile, node?, hres] at hfile
  | ok m =>
    have hm := leads_of_resolve hres
    rw [hchild, Tree.leads_join_ofNames_iff hp (Tree.found?_of_node? hr)
      (Tree.plain_of_node? hn)] at hm
    obtain ⟨hshort, rfl⟩ := (Tree.reaches_names_iff hn hlink).1 hm
    exact ⟨hshort, by simpa [isFile, node?, hres, Tree.found?_of_node? hn] using hfile⟩

section Directory

variable {d : Disk} {p : Path} {r : Location} (hp : d.resolve p = .ok r)
  (hr : d.tree.node? r = some .directory)
include hp hr

/-- Names behind the path of a directory lead to what they name in it. -/
theorem resolve_join_ofNames {names : List Name} {n : Node} (hne : names ≠ [])
    (hn : d.tree.node? (r ++ names) = some n) (hlink : ∀ target, n ≠ .link target)
    (hshort : Short names) (hfits : (p.join (.ofNames names)).fits = true) :
    d.resolve (p.join (.ofNames names)) = .ok (r ++ names) := by
  have hplain := Tree.plain_of_node? hn
  have hrelative := Path.isAbsolute_ofNames hplain
  have hchars := Path.chars_ofNames_ne_nil hplain hne
  obtain ⟨hnul, -, -⟩ := checkText_iff.1 (resolve_eq_ok.1 hp).1
  refine resolve_eq_ok.2
    ⟨checkText_join hrelative hchars hnul (Path.nul_notMem_ofNames hplain) hfits, ?_⟩
  obtain ⟨j, hj⟩ := followWithin_parts hp (Tree.found?_of_node? hr)
  have hstart : d.start (p.join (.ofNames names)) = d.start p := by
    simp only [start, Tree.startOf, Path.isAbsolute_join hrelative]
  rw [hstart, Tree.follow_eq_ok_iff, Path.steps_join hrelative hchars, Path.steps_ofNames hplain]
  refine ⟨j, ?_⟩
  rw [Tree.followWithin_append hj]
  rcases Tree.walk_names hn hlink with ⟨-, hw⟩ | ⟨hlong, -⟩
  · cases j <;> simp [Tree.followWithin, hw]
  · exact absurd hshort hlong

/-- A path to a directory is that of a directory or of a link. -/
theorem linkNode?_of_directory : ∃ n, d.linkNode? p = some n ∧ n.isFile = false := by
  have hnode : d.node? p = some .directory := by
    rw [node?, hp]
    exact Tree.found?_of_node? hr
  unfold linkNode?
  split
  · exact ⟨_, hnode, rfl⟩
  next hslash =>
  obtain ⟨hcheck, hfollow⟩ := resolve_eq_ok.1 hp
  have hsteps : p.steps = p.parts := by simp [Path.steps, hslash]
  obtain ⟨n, hn⟩ := Tree.follow_eq_ok_iff.1 hfollow
  rw [hsteps] at hn
  unfold slot
  rcases List.eq_nil_or_concat p.parts with hparts | ⟨init, name, hparts⟩
  · have hdot : d.tree.follow (d.start p) [['.']] = .ok (d.start p) :=
      Tree.follow_eq_ok_iff.2 ⟨maxLinks, rfl⟩
    exact ⟨_, by simpa [hcheck, hparts, hdot, bind, Except.bind] using hnode, rfl⟩
  · rw [hparts, List.concat_eq_append] at hn
    obtain ⟨k, j, hk⟩ := Tree.exists_followWithin_append hn (by simp)
    have habove : d.tree.follow (d.start p) (init ++ [['.']]) = .ok k :=
      Tree.follow_eq_ok_iff.2 ⟨j, hk⟩
    rw [Tree.followWithin_append hk] at hn
    by_cases hdots : isDots name = true
    · exact ⟨_, by simpa [hcheck, hparts, habove, hdots, bind, Except.bind] using hnode, rfl⟩
    · obtain ⟨hdot, hup⟩ : name ≠ ['.'] ∧ name ≠ ['.', '.'] := by simpa [isDots] using hdots
      obtain ⟨hk, hlen, m, hm, hfile⟩ := Tree.entry_of_followWithin hdot hup hn hr
      exact ⟨m, by simp [hcheck, hparts, habove, hdots, hk, hlen, hm, bind, Except.bind], hfile⟩

/-- The files below a directory are those of the tree whose directories can be entered. -/
theorem mem_filesBelow_iff {names : List Name} {n : Node} :
    (names, n) ∈ d.filesBelow p ↔ d.tree.node? (r ++ names) = some n ∧ names ≠ [] ∧
      n.isFile = true ∧ (p.descend names.dropLast).fits = true := by
  obtain ⟨m, hm, hfile⟩ := linkNode?_of_directory hp hr
  have e : d.filesBelow p =
      (d.tree.filesBelow r).filter fun e => (p.descend e.1.dropLast).fits := by
    unfold filesBelow
    cases m with
    | file content mode => cases hfile
    | directory => simp [hm, hp, hr]
    | link target => simp [hm, hp, hr]
  rw [e, List.mem_filter, Tree.mem_filesBelow_iff]
  simp [and_assoc]

/-- **A search of a directory finds entries of it**, each once, and gives paths that lead to
them. -/
theorem exists_entries_of_filesIn (wanted : Name → Bool)
    (hlink : ∀ n target, d.tree.node? (r ++ [n]) ≠ some (.link target)) :
    ∃ (names : List Name) (path : Name → Path), names.Nodup ∧
      (d.filesIn p wanted).Perm (names.map path) ∧ ∀ n ∈ names, wanted n = true ∧ Short [n] ∧
        d.resolve (path n) = .ok (r ++ [n]) ∧
          ∃ content mode, d.tree.node? (r ++ [n]) = some (.file content mode) := by
  rcases filesIn_cases d p wanted with hnone | ⟨q, k, habs, hparts, hleads, hk, hfiles⟩
  · exact ⟨[], fun _ => ⟨[]⟩, List.nodup_nil, by simp [hnone], by simp⟩
  obtain ⟨-, hchars, -⟩ := checkText_iff.1 (resolve_eq_ok.1 hp).1
  have hfound := Tree.found?_of_node? hk
  -- The search arrives where the path itself leads.
  have hsame : d.tree.Leads d.here p k := by
    apply Tree.leads_of_reaches_parts
    have hstart : Tree.startOf p d.here = Tree.startOf q d.here := by
      simp [Tree.startOf, habs, hchars]
    rw [hstart, ← Tree.reaches_undotted_iff (Path.undotted_append hparts _)]
    exact hleads.reaches_parts hfound
  obtain rfl : k = r := hsame.unique (leads_of_resolve hp)
  refine ⟨((d.tree.names k).filter wanted).filter fun n => d.isFile (q.child n), q.child,
    ((d.tree.nodup_names k).filter _).filter _, ?_, fun n hn => ?_⟩
  · rw [hfiles, List.filter_map]
    exact List.mergeSort_perm _ _
  · obtain ⟨hn, hfile⟩ := List.mem_filter.1 hn
    obtain ⟨hname, hwanted⟩ := List.mem_filter.1 hn
    obtain ⟨node, hnode⟩ := Tree.mem_names_iff.1 hname
    obtain ⟨hshort, hres, hfile⟩ := resolve_child_of_isFile hleads hk hnode
      (fun target e => hlink n target (e ▸ hnode)) hfile
    cases node with
    | file content mode => exact ⟨hwanted, hshort, hres, content, mode, hnode⟩
    | directory => cases hfile
    | link target => cases hfile

end Directory

end Disk
end StatusBadges
