import StatusBadges.Proofs.Path
import StatusBadges.Proofs.Storage.Lookup
import StatusBadges.Storage.Search

/-!
# Where joined paths lead

A path that is joined to the path of a directory leads where it leads from that directory
(`leads_join_iff`). The files that a search of a directory gives have paths that go through the
parts of the directory's path, but for dots in front (`exists_child_of_mem_filesIn`). Dots in front
never matter to a lookup.
-/

namespace StatusBadges

namespace Path

/-- Names without the dots in front of them. -/
def undotted (names : List Name) : List Name := names.dropWhile (· = ['.'])

theorem undotted_append {xs ys : List Name} (h : undotted xs = undotted ys) (zs : List Name) :
    undotted (xs ++ zs) = undotted (ys ++ zs) := by
  unfold undotted at h ⊢
  rw [List.dropWhile_append, List.dropWhile_append, h]

theorem steps_join_undotted {p q : Path} (hq : q.isAbsolute = false) :
    ∃ rest, (p.join q).steps = p.parts ++ rest ∧ undotted rest = undotted q.steps := by
  by_cases hne : q.chars = []
  · refine ⟨if (p.join q).endsWithSlash then [['.']] else [], ?_, ?_⟩
    · have hparts : q.parts = [] := by simp [parts, pieces, hne, Text.split]
      rw [steps, parts_join hq, hparts, List.append_nil]
    · have hsteps : q.steps = [] := by simp [steps, parts, pieces, endsWithSlash, hne, Text.split]
      rw [hsteps]
      split <;> simp [undotted]
  · exact ⟨q.steps, steps_join hq hne, rfl⟩

end Path

namespace Tree

theorem reaches_undotted_iff {t : Tree} {l m : Location} {xs ys : List Name}
    (h : Path.undotted xs = Path.undotted ys) : t.Reaches l xs m ↔ t.Reaches l ys m := by
  rw [← reaches_dropWhile_dot t l xs, ← reaches_dropWhile_dot t l ys]
  exact iff_of_eq (congrArg (t.Reaches l · m) h)

/-- The parts of a path to a directory lead to it, also with a dot behind them. -/
theorem Leads.reaches_parts {t : Tree} {l r : Location} {p : Path} (h : t.Leads l p r)
    (hr : t.found? r = some .directory) : t.Reaches (startOf p l) (p.parts ++ [['.']]) r := by
  unfold Leads Path.steps at h
  split at h
  · exact h
  · rw [List.append_nil] at h
    exact h.dot hr p.nil_notMem_parts

/-- Where the parts of a path lead with a dot behind them, the path leads. -/
theorem leads_of_reaches_parts {t : Tree} {l r : Location} {p : Path}
    (h : t.Reaches (startOf p l) (p.parts ++ [['.']]) r) : t.Leads l p r := by
  unfold Leads Path.steps
  split
  · exact h
  · rw [List.append_nil]
    exact h.of_dot

/-- **A joined path leads where its second part leads** from the directory of the first. -/
theorem leads_join_iff {t : Tree} {l r : Location} {p q : Path} (hq : q.isAbsolute = false)
    (hp : t.Leads l p r) (hr : t.found? r = some .directory) (k : Location) :
    t.Leads l (p.join q) k ↔ t.Leads r q k := by
  obtain ⟨rest, hsteps, hrest⟩ := Path.steps_join_undotted (p := p) hq
  have hstart : startOf (p.join q) l = startOf p l := by
    simp only [startOf, Path.isAbsolute_join hq]
  have hfrom : startOf q r = r := by simp [startOf, hq]
  unfold Leads
  rw [hstart, hsteps, hfrom, reaches_append_iff (hp.reaches_parts hr)]
  exact reaches_undotted_iff hrest

end Tree

namespace Disk

/-- The text of a joined path is right when those of both paths are and it is short enough. -/
theorem checkText_join {p q : Path} (hq : q.isAbsolute = false) (hne : q.chars ≠ [])
    (hp : '\x00' ∉ p.chars) (hnul : '\x00' ∉ q.chars) (hfits : (p.join q).fits = true) :
    checkText (p.join q) = .ok () := by
  refine checkText_iff.2 ⟨fun hmem => ?_, ?_, hfits⟩
  · rcases Path.mem_chars_join hq hmem with h | h | h
    · exact hp h
    · cases h
    · exact hnul h
  · rw [Path.join_of_relative hq]
    split <;> simp [hne]

/-! ## Searching -/

theorem isAbsolute_searchStep {d : Disk} {p q : Path} {part : List Char} (hs : '/' ∉ part)
    (h : d.searchStep p part = some q) :
    q.isAbsolute = p.isAbsolute ∧
      Path.undotted q.parts = Path.undotted (p.parts ++ [part].filter (· != [])) := by
  have hq : q = if p.chars = ['.'] then ⟨part⟩ else p.join ⟨part⟩ := by
    unfold searchStep at h
    simp only at h
    generalize (if p.chars = ['.'] then (⟨part⟩ : Path) else p.join ⟨part⟩) = next at h
    split at h <;> split at h
    · exact (Option.some.inj h).symm
    · cases h
    · exact (Option.some.inj h).symm
    · cases h
  have hparts : (⟨part⟩ : Path).parts = [part].filter (· != []) := by
    rw [Path.parts, Path.pieces_mk hs]
  rw [hq]
  split
  · next hdot =>
    have hp : p = ⟨['.']⟩ := by
      cases p
      exact congrArg Path.mk hdot
    rw [hp, hparts]
    exact ⟨Path.isAbsolute_mk hs, rfl⟩
  · rw [Path.isAbsolute_join (Path.isAbsolute_mk hs), Path.parts_join (Path.isAbsolute_mk hs),
      hparts]
    exact ⟨rfl, rfl⟩

theorem foldlM_searchStep {d : Disk} {p q : Path} {pieces : List (List Char)}
    (hs : ∀ piece ∈ pieces, '/' ∉ piece) (h : pieces.foldlM d.searchStep p = some q) :
    q.isAbsolute = p.isAbsolute ∧
      Path.undotted q.parts = Path.undotted (p.parts ++ pieces.filter (· != [])) := by
  induction pieces generalizing p with
  | nil =>
    cases h
    simp
  | cons piece more ih =>
    obtain ⟨hpiece, hmore⟩ := List.forall_mem_cons.1 hs
    rw [List.foldlM_cons] at h
    cases hstep : d.searchStep p piece with
    | none => rw [hstep] at h; cases h
    | some next =>
      rw [hstep] at h
      obtain ⟨habs, hparts⟩ := isAbsolute_searchStep hpiece hstep
      obtain ⟨habs', hparts'⟩ := ih hmore h
      refine ⟨habs'.trans habs, hparts'.trans ?_⟩
      have e : piece :: more = [piece] ++ more := rfl
      rw [e, List.filter_append, ← List.append_assoc]
      exact Path.undotted_append hparts _

/-- A search goes through the parts of the path that it asks for, dots in front apart. The empty
path asks for the root. -/
theorem parts_searchPath? {d : Disk} {directory p : Path} (h : d.searchPath? directory = some p) :
    p.isAbsolute = (directory.isAbsolute || directory.chars.isEmpty) ∧
      Path.undotted p.parts = Path.undotted directory.parts := by
  unfold searchPath? at h
  simp only at h
  have hsplit (a : List Char) : (Text.split '/' (a ++ ['/'])).dropLast = Text.split '/' a := by
    simp [Text.split_append, Text.split]
  split at h
  · have hfold := foldlM_searchStep (fun piece hm => Text.notMem_of_mem_split
      (List.dropLast_subset _ hm)) h
    cases hc : directory.chars with
    | nil =>
      simp only [hc, List.nil_append, List.tail_cons] at hfold
      simpa [Path.isAbsolute, Path.parts, Path.pieces, Text.split, hc] using hfold
    | cons c rest =>
      next hhead =>
      have hslash : c = '/' := by simpa [hc] using hhead
      subst hslash
      rw [hc, List.cons_append, List.tail_cons, hsplit] at hfold
      simpa [Path.isAbsolute, Path.parts, Path.pieces, Text.split, hc] using hfold
  · next hhead =>
    have hfold := foldlM_searchStep (fun piece hm => Text.notMem_of_mem_split
      (List.dropLast_subset _ hm)) h
    rw [hsplit] at hfold
    cases hc : directory.chars with
    | nil => simp [hc] at hhead
    | cons c rest =>
      have hslash : c ≠ '/' := by simpa [hc] using hhead
      refine ⟨?_, hfold.2⟩
      simpa [Path.isAbsolute, hc, hslash] using hfold.1

/-- The files that a search finds are entries of the directory at which it arrives. From the plain
working directory they have their names alone, which are those behind the empty path. -/
theorem filesIn_cases (d : Disk) (directory : Path) (wanted : Name → Bool) :
    d.filesIn directory wanted = [] ∨ ∃ (p : Path) (l : Location),
      p.isAbsolute = (directory.isAbsolute || directory.chars.isEmpty) ∧
        Path.undotted p.parts = Path.undotted directory.parts ∧ d.tree.Leads d.here p l ∧
        d.tree.node? l = some .directory ∧ d.filesIn directory wanted =
          Path.sort ((((d.tree.names l).filter wanted).map p.child).filter d.isFile) := by
  unfold filesIn
  cases hs : d.searchPath? directory with
  | none => exact Or.inl rfl
  | some p =>
    cases hr : d.resolve p with
    | error cause => exact Or.inl (by simp [hr])
    | ok l =>
      by_cases hl : d.tree.node? l = some .directory
      · obtain ⟨habs, hparts⟩ := parts_searchPath? hs
        have hleads := leads_of_resolve hr
        by_cases hdot : p.chars = ['.']
        · have hp : p = ⟨['.']⟩ := by
            cases p
            exact congrArg Path.mk hdot
          subst hp
          refine Or.inr ⟨⟨[]⟩, l, habs, hparts, ?_, hl, ?_⟩
          · exact (Tree.reaches_undotted_iff (by rfl)).1 hleads
          · have hchild : (⟨[]⟩ : Path).child = Path.mk := by
              funext n
              simp [Path.child, Path.join]
            simp [hr, hl, hchild]
        · exact Or.inr ⟨p, l, habs, hparts, hleads, hl, by simp [hr, hl, hdot]⟩
      · exact Or.inl (by simp [hr, hl])

/-- The files of a directory are entries with plain names of a path that says the same. -/
theorem exists_child_of_mem_filesIn {d : Disk} {directory q : Path} {wanted : Name → Bool}
    (h : q ∈ d.filesIn directory wanted) (hq : q.isAbsolute = false) :
    ∃ (p : Path) (n : Name), q = p.child n ∧ n.isPlain = true ∧ directory.isAbsolute = false ∧
      p.isAbsolute = false ∧ Path.undotted p.parts = Path.undotted directory.parts := by
  rcases filesIn_cases d directory wanted with hnone | ⟨p, l, habs, hparts, -, -, hfiles⟩
  · rw [hnone] at h
    cases h
  · rw [hfiles, Path.mem_sort, List.mem_filter] at h
    obtain ⟨n, hn, rfl⟩ := List.mem_map.1 h.1
    obtain ⟨node, hnode⟩ := Tree.mem_names_iff.1 (List.mem_filter.1 hn).1
    have hplain := Tree.isPlain_of_node? hnode n (by simp)
    obtain ⟨-, -, -, hslash, -⟩ := Name.isPlain_iff.1 hplain
    rw [Path.isAbsolute_child hslash] at hq
    rw [hq, eq_comm, Bool.or_eq_false_iff] at habs
    exact ⟨p, n, rfl, hplain, habs.1, hq, hparts⟩

end Disk
end StatusBadges
