import Mathlib.Data.List.Nodup
import StatusBadges.Proofs.Path.Components
import StatusBadges.Proofs.Path.Order
import StatusBadges.Proofs.Storage.Arrival

/-!
# Searching directories

The path by which a search for a directory arrives there is made of its parts alone, and the search
arrives when the path leads to a directory (`searchPath?_of_isDirectory`). What it finds are entries
of that directory, each once (`exists_names_of_filesIn`).
-/

namespace StatusBadges

theorem Path.child_injective {p : Path} {m n : Name} (hm : '/' ∉ m) (hn : '/' ∉ n)
    (h : p.child m = p.child n) : m = n := by
  have hpieces := congrArg Path.pieces h
  rw [pieces_child hm, pieces_child hn] at hpieces
  simpa using hpieces

namespace Disk

/-! ## Finding the directory -/

theorem isDirectory_iff {d : Disk} {p : Path} :
    d.isDirectory p = true ↔ ∃ m, d.resolve p = .ok m ∧ d.tree.found? m = some .directory := by
  unfold isDirectory node?
  cases d.resolve p <;> simp

theorem exists_of_isDirectory {d : Disk} {p : Path} (h : d.isDirectory p = true) :
    d.exists? p = true := by
  have hnode : d.node? p = some .directory := by simpa [isDirectory] using h
  simp [exists?, hnode]

theorem exists_resolve {d : Disk} {p : Path} (h : d.exists? p = true) :
    ∃ m, d.resolve p = .ok m := by
  unfold exists? node? at h
  cases hp : d.resolve p with
  | error cause => simp [hp] at h
  | ok m => exact ⟨m, rfl⟩

theorem chars_ne_nil_of_exists {d : Disk} {p : Path} (h : d.exists? p = true) : p.chars ≠ [] := by
  intro e
  have hcheck : checkText p = .error .notFound := by
    simp [checkText, checkNaming, e, bind, Except.bind]
  simp [exists?, node?, resolve, hcheck, bind, Except.bind] at h

/-- What a step of a search makes of a path does not depend on the files. -/
theorem eq_of_searchStep {d : Disk} {p q : Path} {part : List Char}
    (h : d.searchStep p part = some q) :
    q = (if p.chars = ['.'] then ⟨part⟩ else p.join ⟨part⟩) ∧ q.chars ≠ [] := by
  unfold searchStep at h
  simp only at h
  generalize hnext : (if p.chars = ['.'] then (⟨part⟩ : Path) else p.join ⟨part⟩) = next at h ⊢
  split at h
  · next hdots =>
    have hpart : part ≠ [] := by
      rintro rfl
      simp at hdots
    split at h
    · obtain rfl := Option.some.inj h
      refine ⟨rfl, ?_⟩
      rw [← hnext]
      split
      · exact hpart
      · unfold Path.join
        split
        · exact hpart
        · split <;> simp [hpart]
    · cases h
  · split at h
    · next hexists =>
      obtain rfl := Option.some.inj h
      exact ⟨rfl, chars_ne_nil_of_exists hexists⟩
    · cases h

/-- The text of a path is right when it is part of one that is. -/
theorem checkText_of_sublist {p q : Path} (h : q.chars.Sublist p.chars) (hne : q.chars ≠ [])
    (hp : checkText p = .ok ()) : checkText q = .ok () := by
  obtain ⟨hnul, -, hfits⟩ := checkText_iff.1 hp
  refine checkText_iff.2 ⟨fun hmem => hnul (h.subset hmem), hne, ?_⟩
  have hoctets := octetCount_le_of_sublist h
  simp only [Path.fits, decide_eq_true_eq] at hfits ⊢
  omega

/-- A path is resolved to the directory to which its parts lead. -/
theorem resolve_of_parts {d : Disk} {p : Path} {k : Location} {j : Nat} (hp : checkText p = .ok ())
    (h : d.tree.followWithin maxLinks (d.start p) (p.parts ++ [['.']]) = .ok (k, j)) :
    d.resolve p = .ok k := by
  refine resolve_eq_ok.2 ⟨hp, Tree.follow_eq_ok_iff.2 ⟨j, ?_⟩⟩
  unfold Path.steps
  split
  · exact h
  · rw [Tree.followWithin_append h]
    cases j <;> rfl

section Search

variable {d d' : Disk} (hs : d'.Settled)
include hs

/-- Where a lookup goes on behind the parts of a path, the path is that of a directory. -/
theorem isDirectory_of_parts {p : Path} {m : Location} {n : Nat} {names : List Name}
    (hp : checkText p = .ok ()) (hne : names ≠ [])
    (h : d'.tree.followWithin maxLinks (d'.start p) (p.parts ++ names) = .ok (m, n)) :
    d'.isDirectory p = true := by
  obtain ⟨k, j, hk⟩ := Tree.exists_followWithin_append h hne
  refine isDirectory_iff.2 ⟨k, resolve_of_parts hp hk, Tree.found?_of_anchor ?_⟩
  exact Tree.anchor_of_followWithin_dot (anchor_start hs p) hk

/-- A process is in a directory. -/
theorem isDirectory_here : d'.isDirectory ⟨['.']⟩ = true :=
  isDirectory_iff.2 ⟨d'.here, rfl, Tree.found?_of_anchor hs⟩

/-- In front of what a path finds there are directories. -/
theorem isDirectory_of_join {p : Path} {part : List Char} (hpart : '/' ∉ part)
    (hp : p.chars ≠ []) (h : d'.exists? (p.join ⟨part⟩) = true) : d'.isDirectory p = true := by
  have hrelative : (⟨part⟩ : Path).isAbsolute = false := Path.isAbsolute_mk hpart
  obtain ⟨m, hm⟩ := exists_resolve h
  obtain ⟨hcheck, hfollow⟩ := resolve_eq_ok.1 hm
  have hfront : ∃ rest, (p.join ⟨part⟩).steps = p.parts ++ rest ∧ rest ≠ [] := by
    by_cases hnil : part = []
    · subst hnil
      have hslash : (p.join ⟨[]⟩).endsWithSlash = true := by
        rw [Path.join_of_relative rfl]
        split
        · next hend =>
          simpa [Path.endsWithSlash, hp] using hend
        · simp [Path.endsWithSlash]
      exact ⟨[['.']], by rw [Path.steps, Path.parts_join rfl, hslash]; simp [Path.parts,
        Path.pieces, Text.split], by simp⟩
    · refine ⟨_, Path.steps_join hrelative hnil, ?_⟩
      rw [Path.steps, Path.parts, Path.pieces_mk hpart]
      simp [hnil]
  obtain ⟨rest, hsteps, hrest⟩ := hfront
  obtain ⟨n, hn⟩ := Tree.follow_eq_ok_iff.1 hfollow
  have hstart : d'.start (p.join ⟨part⟩) = d'.start p := by
    simp only [start, Tree.startOf, Path.isAbsolute_join hrelative]
  rw [hsteps, hstart] at hn
  exact isDirectory_of_parts hs
    (checkText_of_sublist (Path.sublist_chars_join hrelative) hp hcheck) hrest hn

omit hs in
/-- A search goes on from a directory to what there is. -/
theorem searchStep_eq_some {p next : Path} {part : List Char}
    (e : next = if p.chars = ['.'] then ⟨part⟩ else p.join ⟨part⟩)
    (hp : d'.isDirectory p = true) (hnext : d'.exists? next = true) :
    d'.searchStep p part = some next := by
  unfold searchStep
  simp only [← e, hp, hnext, if_true, ite_self]

theorem searchStep_of_isDirectory {p q : Path} {part : List Char} (hpart : '/' ∉ part)
    (hp : p.chars ≠ []) (h : d.searchStep p part = some q) (hq : d'.isDirectory q = true) :
    d'.searchStep p part = some q ∧ d'.isDirectory p = true := by
  obtain ⟨e, -⟩ := eq_of_searchStep h
  have hexists : d'.exists? q = true := exists_of_isDirectory hq
  have hdirectory : d'.isDirectory p = true := by
    by_cases hdot : p.chars = ['.']
    · obtain rfl : p = ⟨['.']⟩ := by
        cases p
        exact congrArg Path.mk hdot
      exact isDirectory_here hs
    · rw [if_neg hdot] at e
      exact isDirectory_of_join hs hpart hp (e ▸ hexists)
  exact ⟨searchStep_eq_some e hdirectory hexists, hdirectory⟩

theorem foldlM_searchStep_of_isDirectory {p q : Path} {pieces : List (List Char)}
    (hpieces : ∀ piece ∈ pieces, '/' ∉ piece) (hp : p.chars ≠ [])
    (h : pieces.foldlM d.searchStep p = some q) (hq : d'.isDirectory q = true) :
    pieces.foldlM d'.searchStep p = some q ∧ (d'.isDirectory p = true) := by
  induction pieces generalizing p with
  | nil =>
    cases h
    exact ⟨rfl, hq⟩
  | cons piece more ih =>
    obtain ⟨hpiece, hmore⟩ := List.forall_mem_cons.1 hpieces
    rw [List.foldlM_cons] at h
    cases hstep : d.searchStep p piece with
    | none => rw [hstep] at h; cases h
    | some next =>
      rw [hstep] at h
      obtain ⟨hrest, hnext⟩ := ih hmore (eq_of_searchStep hstep).2 h
      obtain ⟨hfirst, hdirectory⟩ := searchStep_of_isDirectory hs hpiece hp hstep hnext
      rw [List.foldlM_cons, hfirst]
      exact ⟨hrest, hdirectory⟩

/-- **A search arrives on another disk as well** when it arrives at what is a directory there. -/
theorem searchPath?_of_isDirectory {directory q : Path} (h : d.searchPath? directory = some q)
    (hq : d'.isDirectory q = true) : d'.searchPath? directory = some q := by
  unfold searchPath? at h ⊢
  simp only at h ⊢
  have hpieces (a : List Char) : ∀ piece ∈ (Text.split '/' a).dropLast, '/' ∉ piece :=
    fun piece hm => Text.notMem_of_mem_split (List.dropLast_subset _ hm)
  split at h
  · next habs =>
    rw [if_pos habs]
    exact (foldlM_searchStep_of_isDirectory hs (hpieces _) (by simp) h hq).1
  · next hrel =>
    rw [if_neg hrel]
    exact (foldlM_searchStep_of_isDirectory hs (hpieces _) (by simp) h hq).1

end Search

/-! ## Entries -/

/-- The files that a search finds are different entries of one directory. -/
theorem exists_names_of_filesIn (d : Disk) (directory : Path) (wanted : Name → Bool) :
    ∃ (p : Path) (names : List Name), names.Nodup ∧
      (∀ n ∈ names, wanted n = true ∧ n.isPlain = true) ∧
      (d.filesIn directory wanted).Perm (names.map p.child) := by
  rcases filesIn_cases d directory wanted with hnone | ⟨p, l, -, -, -, -, hfiles⟩
  · exact ⟨directory, [], List.nodup_nil, by simp, by simp [hnone]⟩
  · refine ⟨p, ((d.tree.names l).filter wanted).filter fun n => d.isFile (p.child n),
      ((d.tree.nodup_names l).filter _).filter _, fun n hn => ?_, ?_⟩
    · obtain ⟨hname, hwanted⟩ := List.mem_filter.1 (List.mem_filter.1 hn).1
      obtain ⟨node, hnode⟩ := Tree.mem_names_iff.1 hname
      exact ⟨hwanted, Tree.isPlain_of_node? hnode n (by simp)⟩
    · rw [hfiles, List.filter_map]
      exact List.mergeSort_perm _ _

theorem nodup_filesIn (d : Disk) (directory : Path) (wanted : Name → Bool) :
    (d.filesIn directory wanted).Nodup := by
  obtain ⟨p, names, hnodup, hnames, hperm⟩ := exists_names_of_filesIn d directory wanted
  have hslash {n : Name} (hn : n ∈ names) : '/' ∉ n := (Name.isPlain_iff.1 (hnames n hn).2).2.2.2.1
  refine hperm.nodup_iff.2 (List.Nodup.map_on ?_ hnodup)
  intro m hm n hn h
  exact Path.child_injective (hslash hm) (hslash hn) h

/-- The files that a search finds have different components. -/
theorem eq_of_components_of_mem_filesIn {d : Disk} {directory a b : Path} {wanted : Name → Bool}
    (ha : a ∈ d.filesIn directory wanted) (hb : b ∈ d.filesIn directory wanted)
    (h : a.components = b.components) : a = b := by
  obtain ⟨p, names, -, hnames, hperm⟩ := exists_names_of_filesIn d directory wanted
  obtain ⟨m, hm, rfl⟩ := List.mem_map.1 (hperm.mem_iff.1 ha)
  obtain ⟨n, hn, rfl⟩ := List.mem_map.1 (hperm.mem_iff.1 hb)
  have hdotless {n : Name} (hn : n.isPlain = true) :
      (p.child n).dotless = p.dotless ++ [n] := by
    obtain ⟨hne, hdot, -, hslash, -⟩ := Name.isPlain_iff.1 hn
    simp [Path.dotless, Path.parts_child hslash hne, hdot]
  have hsame := (Path.dotless_of_components h).2
  rw [hdotless (hnames m hm).2, hdotless (hnames n hn).2] at hsame
  rw [List.singleton_inj.1 (List.append_cancel_left hsame)]

theorem pairwise_filesIn (d : Disk) (directory : Path) (wanted : Name → Bool) :
    (d.filesIn directory wanted).Pairwise fun p q => p.le q = true := by
  rcases filesIn_cases d directory wanted with hnone | ⟨p, l, -, -, -, -, hfiles⟩
  · rw [hnone]
    exact .nil
  · rw [hfiles]
    exact Path.pairwise_sort _

/-- Searches that find the same files find them in the same order. -/
theorem filesIn_eq_of_mem_iff {d d' : Disk} {directory : Path} {wanted : Name → Bool}
    (h : ∀ x, x ∈ d'.filesIn directory wanted ↔ x ∈ d.filesIn directory wanted) :
    d'.filesIn directory wanted = d.filesIn directory wanted := by
  have hperm : (d'.filesIn directory wanted).Perm (d.filesIn directory wanted) :=
    (List.perm_ext_iff_of_nodup (nodup_filesIn d' _ _) (nodup_filesIn d _ _)).2 h
  refine hperm.eq_of_pairwise (fun a b ha hb hab hba => ?_) (pairwise_filesIn d' _ _)
    (pairwise_filesIn d _ _)
  exact eq_of_components_of_mem_filesIn ((h a).1 ha) hb (Path.components_eq_of_le hab hba)

/-- The path of an entry of a directory that a search found. The plain working directory is left
out. -/
def entry (p : Path) (n : Name) : Path := if p.chars = ['.'] then ⟨n⟩ else p.child n

theorem mem_filesIn_iff {d : Disk} {directory x : Path} {wanted : Name → Bool} :
    x ∈ d.filesIn directory wanted ↔ ∃ p l n, d.searchPath? directory = some p ∧
      d.resolve p = .ok l ∧ d.tree.node? l = some .directory ∧ n ∈ d.tree.names l ∧
      wanted n = true ∧ x = entry p n ∧ d.isFile x = true := by
  constructor
  · intro h
    unfold filesIn at h
    cases hp : d.searchPath? directory with
    | none => simp [hp] at h
    | some p =>
      cases hl : d.resolve p with
      | error cause => simp [hp, hl] at h
      | ok l =>
        by_cases hdir : d.tree.node? l = some .directory
        · simp only [hp, hl, hdir, if_true, Path.mem_sort, List.mem_filter, List.mem_map] at h
          obtain ⟨⟨n, ⟨hn, hwanted⟩, rfl⟩, hfile⟩ := h
          exact ⟨p, l, n, rfl, hl, hdir, hn, hwanted, rfl, hfile⟩
        · simp [hp, hl, hdir] at h
  · rintro ⟨p, l, n, hp, hl, hdir, hn, hwanted, rfl, hfile⟩
    unfold filesIn
    simp only [hp, hl, hdir, if_true, Path.mem_sort, List.mem_filter, List.mem_map]
    exact ⟨⟨n, ⟨hn, hwanted⟩, rfl⟩, hfile⟩

section Entry

variable {d : Disk} (hs : d.Settled) (ht : d.tree.Linkless)
include hs ht

omit ht in
theorem isDirectory_of_entry {p : Path} {n : Name} (hn : n.isPlain = true) (hp : p.chars ≠ [])
    (h : d.exists? (entry p n) = true) : d.isDirectory p = true := by
  by_cases hdot : p.chars = ['.']
  · obtain rfl : p = ⟨['.']⟩ := by
      cases p
      exact congrArg Path.mk hdot
    exact isDirectory_here hs
  · rw [entry, if_neg hdot] at h
    exact isDirectory_of_join hs (Name.isPlain_iff.1 hn).2.2.2.1 hp h

/-- An entry that is a file is where its name is in the directory. -/
theorem node?_of_entry_file {p : Path} {l : Location} {n : Name} (hn : n.isPlain = true)
    (hp : d.resolve p = .ok l) (hl : d.tree.found? l = some .directory)
    (h : d.isFile (entry p n) = true) : ∃ content mode,
      d.tree.node? (l ++ [n]) = some (.file content mode) := by
  obtain ⟨content, mode, hnode⟩ := isFile_iff.1 h
  obtain ⟨-, k, m, -, -, -, hres, hfile⟩ := exists_name_of_node?_file hs ht hnode
  have hrelative : (⟨n⟩ : Path).isAbsolute = false :=
    Path.isAbsolute_mk (Name.isPlain_iff.1 hn).2.2.2.1
  have hname {r r' : Location} (h : d.tree.Leads r ⟨n⟩ r') : r' = r ++ [n] := by
    have hplain : Path.Plain [n] := by simpa [Path.Plain] using hn
    have hsteps : (⟨n⟩ : Path).steps = [n] := Path.steps_ofNames hplain
    rw [Tree.Leads, Tree.startOf, hrelative, hsteps, ht.reaches_iff] at h
    obtain ⟨-, hdot, hup, -⟩ := Name.isPlain_iff.1 hn
    exact (Tree.eq_concat_of_walk hdot hup h).1
  have hleads := leads_of_resolve hres
  refine ⟨content, mode, ?_⟩
  rw [← hfile]
  congr 1
  by_cases hdot : p.chars = ['.']
  · obtain rfl : p = ⟨['.']⟩ := by
      cases p
      exact congrArg Path.mk hdot
    obtain rfl : d.here = l := by
      have e : d.resolve ⟨['.']⟩ = .ok d.here := rfl
      rw [e] at hp
      exact Except.ok.inj hp
    exact (hname hleads).symm
  · rw [entry, if_neg hdot, Path.child, Tree.leads_join_iff hrelative (leads_of_resolve hp) hl]
      at hleads
    exact (hname hleads).symm

/-- **A file that a search finds is found on another disk** on which it is a file as well. -/
theorem mem_filesIn_of_isFile {e : Disk} {directory x : Path} {wanted : Name → Bool}
    (h : x ∈ e.filesIn directory wanted) (hx : d.isFile x = true) :
    x ∈ d.filesIn directory wanted := by
  obtain ⟨p, k, n, hsearch, hk, -, hn, hwanted, rfl, -⟩ := mem_filesIn_iff.1 h
  obtain ⟨node, hnode⟩ := Tree.mem_names_iff.1 hn
  have hplain := Tree.isPlain_of_node? hnode n (by simp)
  obtain ⟨-, hchars, -⟩ := checkText_iff.1 (resolve_eq_ok.1 hk).1
  have hexists : d.exists? (entry p n) = true := by
    obtain ⟨content, mode, hnode⟩ := isFile_iff.1 hx
    simp [exists?, hnode]
  have hdir := isDirectory_of_entry hs hplain hchars hexists
  obtain ⟨l, hl, hfound⟩ := isDirectory_iff.1 hdir
  obtain ⟨content, mode, hfile⟩ := node?_of_entry_file hs ht hplain hl hfound hx
  have habove := Tree.node?_dropLast hfile
  rw [List.dropLast_concat] at habove
  exact mem_filesIn_iff.2 ⟨p, l, n, searchPath?_of_isDirectory hs hsearch hdir, hl, habove,
    Tree.mem_names_iff.2 ⟨_, hfile⟩, hwanted, rfl, hx⟩

end Entry

end Disk
end StatusBadges
