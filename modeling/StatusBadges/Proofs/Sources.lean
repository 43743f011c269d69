import StatusBadges.Build
import StatusBadges.Coverage.Census
import StatusBadges.Proofs.Path.Order
import StatusBadges.Proofs.Storage.Search

/-!
# Projects with the same sources

Whatever is looked up in a project to find its version, its entry file, its tests and its
declarations ends with the name of a source or of a manifest (`Sources.isRead`). Two projects whose
files of these names are the same look the same, when the ways to these files are passable in both
(`SameSources`, `Ways`).
-/

namespace StatusBadges

/-- Whether a file of this name is looked into: it is a source or a manifest. -/
def Sources.isRead (n : Name) : Bool :=
  n.extension? = some Sources.sourceExtension || Manifest.isManifestName n

/-- What a reader sees of a node: the content of a file, and whether it may be read. -/
def Node.seen? : Node → Option (Content × Bool)
  | .file content mode => some (content, Node.mayRead mode)
  | _ => none

theorem Node.seen?_eq_some_iff {n : Node} {content : Content} {may : Bool} :
    n.seen? = some (content, may) ↔ ∃ mode, n = .file content mode ∧ Node.mayRead mode = may := by
  cases n <;> simp [seen?]

/-- Two disks without links have the same sources and manifests. -/
structure SameSources (d d' : Disk) : Prop where
  here_eq : d'.here = d.here
  settled : d.Settled ∧ d'.Settled
  linkless : d.tree.Linkless ∧ d'.tree.Linkless
  sources : ∀ l n, Sources.isRead n = true →
    (d'.tree.node? (l ++ [n])).bind Node.seen? = (d.tree.node? (l ++ [n])).bind Node.seen?

theorem SameSources.refl {d : Disk} (hs : d.Settled) (ht : d.tree.Linkless) : SameSources d d :=
  ⟨rfl, ⟨hs, hs⟩, ⟨ht, ht⟩, fun _ _ _ => rfl⟩

theorem SameSources.trans {d d' d'' : Disk} (h : SameSources d d') (h' : SameSources d' d'') :
    SameSources d d'' :=
  ⟨h'.here_eq.trans h.here_eq, ⟨h.settled.1, h'.settled.2⟩, ⟨h.linkless.1, h'.linkless.2⟩,
    fun l n hn => (h'.sources l n hn).trans (h.sources l n hn)⟩

theorem SameSources.symm {d d' : Disk} (h : SameSources d d') : SameSources d' d :=
  ⟨h.here_eq.symm, h.settled.symm, h.linkless.symm, fun l n hn => (h.sources l n hn).symm⟩

/-- The ways along the names are passable from each of two disks to the other. -/
def Ways (d d' : Disk) (names : List Name) : Prop :=
  Tree.Passable d.tree d'.tree names ∧ Tree.Passable d'.tree d.tree names

theorem Ways.symm {d d' : Disk} {names : List Name} (h : Ways d d' names) : Ways d' d names :=
  And.symm h

theorem Ways.of_directories {d d' : Disk}
    (h : ∀ l, d'.tree.node? l = some .directory ↔ d.tree.node? l = some .directory)
    (names : List Name) : Ways d d' names :=
  ⟨.inl fun l => (h l).2, .inl fun l => (h l).1⟩

theorem Ways.of_notMem {d d' : Disk} {names : List Name} (h : ['.', '.'] ∉ names) :
    Ways d d' names :=
  ⟨.inr h, .inr h⟩

theorem Ways.append {d d' : Disk} {names more : List Name} (h : Ways d d' names)
    (hmore : ['.', '.'] ∉ more) : Ways d d' (names ++ more) := by
  have hup (hnames : ['.', '.'] ∉ names) : ['.', '.'] ∉ names ++ more := by
    simp [hnames, hmore]
  exact ⟨h.1.imp_right hup, h.2.imp_right hup⟩

/-- Dots in front of names do not matter. -/
theorem Ways.of_undotted {d d' : Disk} {names more : List Name} (h : Ways d d' names)
    (e : Path.undotted more = Path.undotted names) : Ways d d' more := by
  have hmem (names : List Name) :
      ['.', '.'] ∈ Path.undotted names ↔ ['.', '.'] ∈ names := by
    induction names with
    | nil => rfl
    | cons s rest ih =>
      by_cases hs : s = ['.']
      · subst hs
        simpa [Path.undotted] using ih
      · rw [Path.undotted, List.dropWhile_cons_of_neg (by simpa using hs)]
  have hup (hnames : ['.', '.'] ∉ names) : ['.', '.'] ∉ more := by
    rwa [← hmem, e, hmem]
  exact ⟨h.1.imp_right hup, h.2.imp_right hup⟩

namespace Path

/-- When the last thing that a path asks for is a plain name, it is that of a source or a
manifest. -/
def EndsRead (p : Path) : Prop :=
  ∀ n, p.steps.getLast? = some n → n.isPlain = true → Sources.isRead n = true

theorem endsRead_of_parts {p : Path} {before : List Name} {n : Name}
    (hparts : p.parts = before ++ [n]) (hn : Sources.isRead n = true) : p.EndsRead := by
  intro m hm hplain
  rw [steps, hparts] at hm
  split at hm
  · rw [List.getLast?_concat] at hm
    rw [← Option.some.inj hm] at hplain
    cases hplain
  · rw [List.append_nil, List.getLast?_concat] at hm
    rwa [← Option.some.inj hm]

/-- Without a slash at its end a path ends with its last part. -/
theorem pieces_of_parts {p : Path} {before : List Name} {n : Name}
    (hparts : p.parts = before ++ [n]) (hslash : p.endsWithSlash = false) :
    ∃ front, p.pieces = front ++ [n] := by
  rcases List.eq_nil_or_concat p.pieces with e | ⟨front, last, e⟩
  · exact absurd e (Text.split_ne_nil _ _)
  rw [List.concat_eq_append] at e
  rw [parts, e, List.filter_append] at hparts
  by_cases hlast : last = []
  · -- An empty part comes last behind a slash only, or in the empty path.
    subst hlast
    have hfront : front ≠ [] := by
      rintro rfl
      simp at hparts
    have hchars := p.chars_eq_joined
    rw [e, Text.joined_append '/' hfront (by simp)] at hchars
    simp [endsWithSlash, hchars, Text.joined] at hslash
  · have hsingle : [last].filter (· != []) = [last] := by simp [hlast]
    rw [hsingle] at hparts
    obtain ⟨-, hn⟩ := List.append_inj' hparts rfl
    exact ⟨front, by rw [e, List.singleton_inj.1 hn]⟩

/-- A path that ends with a plain name has that file name. -/
theorem fileName?_of_parts {p : Path} {before : List Name} {n : Name}
    (hparts : p.parts = before ++ [n]) (hslash : p.endsWithSlash = false) (hn : n.isPlain = true) :
    p.fileName? = some n := by
  obtain ⟨hne, hdot, hup, hnslash, -⟩ := Name.isPlain_iff.1 hn
  obtain ⟨front, hpieces⟩ := pieces_of_parts hparts hslash
  obtain ⟨before, hbody⟩ : ∃ before, p.body = before ++ [n] := by
    unfold body
    split
    · next hstart =>
      cases front with
      | nil =>
        -- A path of one part that is a name starts neither at the root nor with a dot.
        have hchars : p.chars = n := by
          rw [p.chars_eq_joined, hpieces]
          simp [Text.joined]
        rw [startsHere, hpieces, isAbsolute, hchars] at hstart
        simp only [Bool.or_eq_true, decide_eq_true_eq] at hstart
        rcases hstart with h | h
        · exact absurd (List.mem_of_mem_head? h) hnslash
        · exact absurd (by simpa using h) hdot
      | cons first rest => exact ⟨rest, by rw [hpieces]; rfl⟩
    · exact ⟨front, hpieces⟩
  have hidle : isIdle n = false := by simp [isIdle, hne, hdot]
  simp [fileName?, hbody, dropIdleEnd, hidle, hup]

end Path

/-- The ways to the files that a search finds are those to the directory and one name further. -/
theorem ways_of_mem_filesIn {d d' : Disk} {directory x : Path} {wanted : Name → Bool}
    (hp : Ways d d' directory.parts) (hwanted : ∀ n, wanted n = true → Sources.isRead n = true)
    (hx : x ∈ d.filesIn directory wanted) : Ways d d' x.parts ∧ x.EndsRead := by
  obtain ⟨q, l, n, hsearch, -, -, hn, hname, rfl, -⟩ := Disk.mem_filesIn_iff.1 hx
  obtain ⟨node, hnode⟩ := Tree.mem_names_iff.1 hn
  obtain ⟨hne, -, hup, hslash, -⟩ := Name.isPlain_iff.1 (Tree.isPlain_of_node? hnode n (by simp))
  obtain ⟨before, hparts, hways⟩ : ∃ before, (Disk.entry q n).parts = before ++ [n] ∧
      Ways d d' before := by
    unfold Disk.entry
    split
    · refine ⟨[], ?_, .inr (by simp), .inr (by simp)⟩
      rw [Path.parts, Path.pieces_mk hslash]
      simp [hne]
    · exact ⟨q.parts, Path.parts_child hslash hne,
        hp.of_undotted (Disk.parts_searchPath? hsearch).2⟩
  refine ⟨hparts ▸ hways.append (by simpa using Ne.symm hup), ?_⟩
  exact Path.endsRead_of_parts hparts (hwanted n hname)

/-! ## Files -/

namespace SameSources

variable {d d' : Disk} (h : SameSources d d') {p : Path}
include h

/-- A source is at the same location on the other disk. -/
theorem node?_source {l : Location} {n : Name} (hn : Sources.isRead n = true) {content : Content}
    {mode : Nat} (hnode : d.tree.node? (l ++ [n]) = some (.file content mode)) :
    ∃ mode', d'.tree.node? (l ++ [n]) = some (.file content mode') ∧
      Node.mayRead mode' = Node.mayRead mode := by
  have hsame := h.sources l n hn
  rw [hnode] at hsame
  obtain ⟨node, hnode', hseen⟩ := Option.bind_eq_some_iff.1 hsame
  obtain ⟨mode', rfl, hmode⟩ := Node.seen?_eq_some_iff.1 hseen
  exact ⟨mode', hnode', hmode⟩

theorem node?_file (hp : Ways d d' p.parts) (hread : p.EndsRead) {content : Content} {mode : Nat}
    (hn : d.node? p = some (.file content mode)) :
    ∃ mode', d'.node? p = some (.file content mode') ∧ Node.mayRead mode' = Node.mayRead mode := by
  obtain ⟨before, k, n, hparts, hslash, hplain, hres, hnode⟩ :=
    Disk.exists_name_of_node?_file h.settled.1 h.linkless.1 hn
  have hsteps : p.steps = p.parts := by simp [Path.steps, hslash]
  have hname : Sources.isRead n = true := hread n (by simp [hsteps, hparts]) hplain
  obtain ⟨mode', hnode', hmode⟩ := h.node?_source hname hnode
  have hres' : d'.resolve p = .ok (k ++ [n]) := by
    refine Disk.resolve_of_node h.linkless.1 h.linkless.2 h.here_eq (hsteps ▸ hp.1) hres hnode' ?_
    rw [hnode]
    exact fun e => by cases e
  exact ⟨mode', Disk.node?_of_resolve hres' hnode', hmode⟩

theorem isFile_eq (hp : Ways d d' p.parts) (hread : p.EndsRead) : d'.isFile p = d.isFile p := by
  have hfile {d d' : Disk} (h : SameSources d d') (hp : Ways d d' p.parts)
      (hf : d.isFile p = true) : d'.isFile p = true := by
    obtain ⟨content, mode, hn⟩ := Disk.isFile_iff.1 hf
    obtain ⟨mode', hn', -⟩ := h.node?_file hp hread hn
    exact Disk.isFile_iff.2 ⟨content, mode', hn'⟩
  rw [Bool.eq_iff_iff]
  exact ⟨hfile h.symm hp.symm, hfile h hp⟩

theorem readText_iff (hp : Ways d d' p.parts) (hread : p.EndsRead) (text : String) :
    d'.readText p = .ok text ↔ d.readText p = .ok text := by
  have hread {d d' : Disk} (h : SameSources d d') (hp : Ways d d' p.parts)
      (ht : d.readText p = .ok text) : d'.readText p = .ok text := by
    obtain ⟨mode, hn, hmode⟩ := Disk.readText_eq_ok.1 ht
    obtain ⟨mode', hn', hsame⟩ := h.node?_file hp hread hn
    exact Disk.readText_eq_ok.2 ⟨mode', hn', hsame.trans hmode⟩
  exact ⟨hread h.symm hp.symm, hread h hp⟩

/-- A file is read on both disks, with the same text, or on none. -/
theorem readText_or (hp : Ways d d' p.parts) (hread : p.EndsRead) :
    (∃ text, d'.readText p = .ok text ∧ d.readText p = .ok text) ∨
      ∃ cause cause', d'.readText p = .error cause' ∧ d.readText p = .error cause := by
  cases hd : d.readText p with
  | ok text => exact .inl ⟨text, (h.readText_iff hp hread text).2 hd, rfl⟩
  | error cause =>
    cases hd' : d'.readText p with
    | ok text =>
      rw [h.readText_iff hp hread, hd] at hd'
      cases hd'
    | error cause' => exact .inr ⟨cause, cause', rfl, rfl⟩

theorem filesIn_eq {directory : Path} {wanted : Name → Bool}
    (hp : Ways d d' directory.parts) (hwanted : ∀ n, wanted n = true → Sources.isRead n = true) :
    d'.filesIn directory wanted = d.filesIn directory wanted := by
  have hfound {d d' : Disk} (h : SameSources d d') (hp : Ways d d' directory.parts) {x : Path}
      (hx : x ∈ d.filesIn directory wanted) : x ∈ d'.filesIn directory wanted := by
    refine Disk.mem_filesIn_of_isFile h.settled.2 h.linkless.2 hx ?_
    obtain ⟨hways, hread⟩ := ways_of_mem_filesIn hp hwanted hx
    obtain ⟨-, -, -, -, -, -, -, -, -, hfile⟩ := Disk.mem_filesIn_iff.1 hx
    rw [h.isFile_eq hways hread, hfile]
  exact Disk.filesIn_eq_of_mem_iff fun x => ⟨hfound h.symm hp.symm, hfound h hp⟩

theorem resolve_of_directory (hp : Ways d d' p.parts) {l : Location} (hres : d.resolve p = .ok l)
    (hl : d'.tree.node? l = some .directory) : d'.resolve p = .ok l := by
  have hsteps : Ways d d' p.steps := hp.append (by split <;> simp)
  exact Disk.resolve_of_node h.linkless.1 h.linkless.2 h.here_eq hsteps.1 hres hl fun _ => rfl

end SameSources

/-! ## Sources below the root -/

namespace Sources

/-- The names that lead from the root of a project to its sources. -/
def sourceNames (d : Disk) (root : Path) : List (List Name) :=
  ((d.filesBelow root).map (·.1)).filter (isSource root)

theorem nimFiles_eq_sort (d : Disk) (root : Path) :
    nimFiles d root = Path.sort ((sourceNames d root).map .ofNames) := by
  rw [nimFiles, sourceNames, List.filter_map, List.map_map]
  rfl

/-- What is found below a path: the file to which it leads, or the files below the directory to
which it leads. -/
theorem mem_filesBelow_cases {d : Disk} {root : Path} {names : List Name} {n : Node}
    (h : (names, n) ∈ d.filesBelow root) :
    (names = [] ∧ d.linkNode? root = some n ∧ n.isFile = true) ∨
      ∃ l, d.resolve root = .ok l ∧ d.tree.node? l = some .directory := by
  unfold Disk.filesBelow at h
  split at h
  · cases h
  · next content mode hnode =>
    cases List.mem_singleton.1 h
    exact .inl ⟨rfl, hnode, rfl⟩
  · split at h
    · next l hl =>
      split at h
      · next hdir => exact .inr ⟨l, hl, hdir⟩
      · cases h
    · cases h

theorem plain_of_mem_sourceNames {d : Disk} {root : Path} {names : List Name}
    (h : names ∈ sourceNames d root) : Path.Plain names := by
  obtain ⟨⟨_, n⟩, hfound, rfl⟩ := List.mem_map.1 (List.mem_filter.1 h).1
  rcases mem_filesBelow_cases hfound with ⟨hnil, -, -⟩ | ⟨l, hl, hdir⟩
  · simp [hnil, Path.Plain]
  · exact Tree.plain_of_node? ((Disk.mem_filesBelow_iff hl hdir).1 hfound).1

theorem nodup_sourceNames (d : Disk) (root : Path) : (sourceNames d root).Nodup := by
  have hbelow (l : Location) : ((d.tree.filesBelow l).map (·.1)).Nodup := by
    have hdistinct : d.tree.entries.Pairwise fun a b => a.1 ≠ b.1 :=
      List.pairwise_map.1 d.tree.distinct
    have hname {e : Location × Node} {x : List Name × Node}
        (hx : (if l.isPrefixOf e.1 && e.1 != l && e.2.isFile then
          some (e.1.drop l.length, e.2) else none) = some x) : e.1 = l ++ x.1 := by
      split at hx
      · next hif =>
        simp only [Bool.and_eq_true, List.isPrefixOf_iff_prefix] at hif
        obtain ⟨rest, hrest⟩ := hif.1.1
        cases hx
        rw [← hrest, List.drop_left]
      · cases hx
    refine List.pairwise_map.2 (List.Pairwise.filterMap _ (fun a b hne x hx y hy e => ?_) hdistinct)
    exact hne ((hname hx).trans ((congrArg (l ++ ·) e).trans (hname hy).symm))
  refine List.Nodup.filter _ ?_
  unfold Disk.filesBelow
  split
  · exact List.nodup_nil
  · exact List.nodup_singleton _
  · split
    · split
      · exact (hbelow _).sublist (List.filter_sublist.map _)
      · exact List.nodup_nil
    · exact List.nodup_nil

end Sources

namespace SameSources

variable {d d' : Disk} (h : SameSources d d') {root : Path} (hroot : Ways d d' root.parts)
include h hroot

theorem mem_sourceNames {names : List Name} (hmem : names ∈ Sources.sourceNames d root) :
    names ∈ Sources.sourceNames d' root := by
  obtain ⟨hmap, hsource⟩ := List.mem_filter.1 hmem
  refine List.mem_filter.2 ⟨?_, hsource⟩
  obtain ⟨⟨below, node⟩, hfound, rfl⟩ := List.mem_map.1 hmap
  simp only [Sources.isSource, Bool.and_eq_true, decide_eq_true_eq] at hsource
  rcases Sources.mem_filesBelow_cases hfound with ⟨hnil, hnode, hfile⟩ | ⟨l, hl, hdir⟩
  · -- The root is a source itself.
    subst hnil
    cases node with
    | directory => cases hfile
    | link target => cases hfile
    | file content mode =>
      rw [Disk.linkNode?_eq_file_iff h.settled.1 h.linkless.1] at hnode
      obtain ⟨before, k, n, hparts, hslash, hplain, -⟩ :=
        Disk.exists_name_of_node?_file h.settled.1 h.linkless.1 hnode
      have hext : n.extension? = some Sources.sourceExtension := by
        simpa [Path.fileName?_of_parts hparts hslash hplain] using hsource.1
      have hread : root.EndsRead :=
        Path.endsRead_of_parts hparts (by simp [Sources.isRead, hext])
      obtain ⟨mode', hnode', -⟩ := h.node?_file hroot hread hnode
      rw [← Disk.linkNode?_eq_file_iff h.settled.2 h.linkless.2] at hnode'
      refine List.mem_map.2 ⟨([], .file content mode'), ?_, rfl⟩
      simp [Disk.filesBelow, hnode']
  · obtain ⟨hnode, hne, hfile, hfits⟩ := (Disk.mem_filesBelow_iff hl hdir).1 hfound
    rcases List.eq_nil_or_concat below with rfl | ⟨init, n, rfl⟩
    · exact absurd rfl hne
    rw [List.concat_eq_append] at hnode hne hfits hsource ⊢
    have hext : n.extension? = some Sources.sourceExtension := by simpa using hsource.1
    cases node with
    | directory => cases hfile
    | link target => cases hfile
    | file content mode =>
      rw [← List.append_assoc] at hnode
      obtain ⟨mode', hnode', -⟩ := h.node?_source (by simp [Sources.isRead, hext]) hnode
      rw [List.append_assoc] at hnode'
      have hdir' := Tree.directory_above hnode' (List.prefix_append l _) (by simp)
      exact List.mem_map.2 ⟨_, (Disk.mem_filesBelow_iff (h.resolve_of_directory hroot hl hdir')
        hdir').2 ⟨hnode', hne, rfl, hfits⟩, rfl⟩

theorem nimFiles_eq : Sources.nimFiles d' root = Sources.nimFiles d root := by
  have hperm : (Sources.sourceNames d' root).Perm (Sources.sourceNames d root) :=
    (List.perm_ext_iff_of_nodup (Sources.nodup_sourceNames d' root)
      (Sources.nodup_sourceNames d root)).2
        fun _ => ⟨h.symm.mem_sourceNames hroot.symm, h.mem_sourceNames hroot⟩
  rw [Sources.nimFiles_eq_sort, Sources.nimFiles_eq_sort]
  refine Path.sort_eq_of_perm (hperm.map _) fun p hp q hq e => ?_
  obtain ⟨a, ha, rfl⟩ := List.mem_map.1 hp
  obtain ⟨b, hb, rfl⟩ := List.mem_map.1 hq
  rw [Path.ofNames_injective (Sources.plain_of_mem_sourceNames ha)
    (Sources.plain_of_mem_sourceNames hb) e]

end SameSources
end StatusBadges
