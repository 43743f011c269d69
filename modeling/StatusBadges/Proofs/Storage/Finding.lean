import Mathlib.Data.List.TakeWhile
import StatusBadges.Proofs.Storage.Search

/-!
# What a search of a directory finds

A search finds a directory by every path to it but one kind: when a relative path begins with dots
and goes on with an empty part, the search loses its way (`searchPath?_cases`). In the
directory it finds the entries with wanted names that are files, links followed, in the order of
their names, as far as their paths can be looked up (`exists_finds`).
-/

namespace StatusBadges

namespace Path

/-- The path begins with an empty part, not counting parts that are a dot, and is no absolute
path. -/
def stumbles (p : Path) : Bool :=
  !p.isAbsolute && (p.pieces.dropWhile (· = ['.'])).head? = some []

theorem parts_mk {piece : List Char} (hpiece : '/' ∉ piece) :
    (⟨piece⟩ : Path).parts = [piece].filter (· != []) := by
  rw [parts, pieces_mk hpiece]

/-- Parts behind others. -/
def behind (pieces : List (List Char)) : List Char := (pieces.map ('/' :: ·)).flatten

theorem joined_cons_eq (piece : List Char) (more : List (List Char)) :
    Text.joined ['/'] (piece :: more) = piece ++ behind more := by
  induction more generalizing piece with
  | nil => simp [Text.joined, behind]
  | cons next rest ih =>
    have e : Text.joined ['/'] (piece :: next :: rest) =
        piece ++ '/' :: Text.joined ['/'] (next :: rest) := by simp [Text.joined]
    rw [e, ih]
    simp [behind]

end Path

namespace Disk

/-! ## The way to the directory -/

theorem searchPath?_eq {d : Disk} {p : Path} (hp : p.chars ≠ []) :
    d.searchPath? p = if p.isAbsolute then p.pieces.tail.foldlM d.searchStep ⟨['/']⟩
      else p.pieces.foldlM d.searchStep ⟨['.']⟩ := by
  have hsplit (a : List Char) : (Text.split '/' (a ++ ['/'])).dropLast = Text.split '/' a := by
    simp [Text.split_append, Text.split]
  cases hc : p.chars with
  | nil => exact absurd hc hp
  | cons c rest =>
    have habs : p.isAbsolute = decide (c = '/') := by simp [Path.isAbsolute, hc]
    simp only [searchPath?, hc, List.cons_append, List.head?_cons, Option.some.injEq,
      List.tail_cons, habs, decide_eq_true_eq]
    split
    · next hslash =>
      simp only [hsplit, Path.pieces, hc, hslash, Text.split, if_true, List.tail_cons]
    · simp only [← List.cons_append, hsplit, Path.pieces, hc]

/-- A search for a path has come to `q`, from where the parts that are left lead on to `l`. -/
structure Heads (d : Disk) (p : Path) (l : Location) (q : Path) (more : List (List Char)) :
    Prop where
  /-- Nothing was written that is not in the path. -/
  sublist : (q.chars ++ Path.behind more).Sublist p.chars
  ne_nil : q.chars ≠ []
  ne_dot : q.chars ≠ ['.']
  leads : ∃ j, d.tree.followWithin maxLinks (d.start q)
    (q.parts ++ (more.filter (· != []) ++ [['.']])) = .ok (l, j)

variable {d : Disk} {p : Path} {l : Location}

section Heads

variable (hs : d.Settled) (hcheck : checkText p = .ok ())
include hcheck

theorem Heads.check {q : Path} {more : List (List Char)} (h : d.Heads p l q more) :
    checkText q = .ok () :=
  checkText_of_sublist ((List.sublist_append_left _ _).trans h.sublist) h.ne_nil hcheck

include hs in
theorem Heads.isDirectory {q : Path} {more : List (List Char)} (h : d.Heads p l q more) :
    d.isDirectory q = true := by
  obtain ⟨j, hj⟩ := h.leads
  exact isDirectory_of_parts hs (h.check hcheck) (by simp) hj

include hs in
theorem Heads.step {q : Path} {piece : List Char} {more : List (List Char)}
    (h : d.Heads p l q (piece :: more)) (hpiece : '/' ∉ piece) :
    d.searchStep q piece = some (q.join ⟨piece⟩) ∧ d.Heads p l (q.join ⟨piece⟩) more := by
  have hrelative : (⟨piece⟩ : Path).isAbsolute = false := Path.isAbsolute_mk hpiece
  have hchars := congrArg Path.chars (Path.join_of_relative (p := q) hrelative)
  have hslash : '/' ∈ (q.join ⟨piece⟩).chars := by
    rw [hchars]
    split
    · next hend =>
      have hlast : q.chars.getLast? = some '/' := by simpa [h.ne_nil] using hend
      exact List.mem_append_left _ (List.mem_of_getLast? hlast)
    · simp
  have hnext : d.Heads p l (q.join ⟨piece⟩) more := by
    refine ⟨List.Sublist.trans ?_ h.sublist, List.ne_nil_of_mem hslash, fun e => ?_, ?_⟩
    · have e : q.chars ++ Path.behind (piece :: more) =
          (q.chars ++ '/' :: piece) ++ Path.behind more := by simp [Path.behind]
      rw [e]
      refine List.Sublist.append_right ?_ _
      rw [hchars]
      split
      · exact (List.sublist_cons_self _ _).append_left _
      · exact List.Sublist.refl _
    · rw [e] at hslash
      exact absurd hslash (by decide)
    · obtain ⟨j, hj⟩ := h.leads
      have hstart : d.start (q.join ⟨piece⟩) = d.start q := by
        simp only [start, Tree.startOf, Path.isAbsolute_join hrelative]
      refine ⟨j, ?_⟩
      rw [hstart, Path.parts_join hrelative, Path.parts_mk hpiece, ← hj, List.append_assoc,
        ← List.append_assoc ([piece].filter _), ← List.filter_append, List.singleton_append]
  exact ⟨searchStep_eq_some (if_neg h.ne_dot).symm (h.isDirectory hs hcheck)
    (exists_of_isDirectory (hnext.isDirectory hs hcheck)), hnext⟩

include hs in
theorem Heads.foldlM {q : Path} {more : List (List Char)} (h : d.Heads p l q more)
    (hmore : ∀ piece ∈ more, '/' ∉ piece) :
    ∃ r, more.foldlM d.searchStep q = some r ∧ d.resolve r = .ok l := by
  induction more generalizing q with
  | nil =>
    obtain ⟨j, hj⟩ := h.leads
    exact ⟨q, rfl, resolve_of_parts (h.check hcheck) hj⟩
  | cons piece rest ih =>
    obtain ⟨hpiece, hrest⟩ := List.forall_mem_cons.1 hmore
    obtain ⟨hstep, hnext⟩ := h.step hs hcheck hpiece
    rw [List.foldlM_cons, hstep]
    exact ih hnext hrest

include hs in
/-- A search that heads for a directory behind its first step finds it. -/
theorem Heads.foldlM_cons {q next : Path} {first : List Char} {more : List (List Char)}
    (h : d.Heads p l next more) (e : next = if q.chars = ['.'] then ⟨first⟩ else q.join ⟨first⟩)
    (hq : d.isDirectory q = true) (hslash : ∀ piece ∈ first :: more, '/' ∉ piece) :
    ∃ r, (first :: more).foldlM d.searchStep q = some r ∧ d.resolve r = .ok l := by
  have hstep : d.searchStep q first = some next :=
    searchStep_eq_some e hq (exists_of_isDirectory (h.isDirectory hs hcheck))
  rw [List.foldlM_cons, hstep]
  exact h.foldlM hs hcheck (List.forall_mem_cons.1 hslash).2

end Heads

section Search

variable (hs : d.Settled) (hp : d.resolve p = .ok l) (hl : d.tree.node? l = some .directory)
include hp hl

/-- Behind its first part a search for an absolute path has come to that part in the root. -/
theorem heads_of_absolute {first : List Char} {more : List (List Char)}
    (hpieces : p.pieces = [] :: first :: more) (hslash : '/' ∉ first) :
    d.Heads p l ⟨'/' :: first⟩ more := by
  obtain ⟨j, hj⟩ := followWithin_parts hp (Tree.found?_of_node? hl)
  have hchars : p.chars = '/' :: first ++ Path.behind more := by
    rw [p.chars_eq_joined, hpieces, Path.joined_cons_eq]
    simp [Path.behind]
  refine ⟨hchars ▸ List.Sublist.refl _, by simp, by simp, j, ?_⟩
  have hfirst : (⟨'/' :: first⟩ : Path).parts = [first].filter (· != []) := by
    rw [Path.parts, Path.pieces, Text.split, if_pos rfl, Text.split_eq_singleton hslash]
    rfl
  have hwhole : p.parts = [first].filter (· != []) ++ more.filter (· != []) := by
    rw [← List.filter_append, Path.parts, hpieces]
    rfl
  have hstart : d.start ⟨'/' :: first⟩ = d.start p := by
    simp [start, Tree.startOf, Path.isAbsolute, hchars]
  rw [hfirst, hstart, ← hj, hwhole, List.append_assoc]

/-- Behind dots and another part a search for a relative path has come to that part. -/
theorem heads_of_relative (habs : p.isAbsolute = false) {first : List Char}
    {dots more : List (List Char)} (hpieces : p.pieces = dots ++ first :: more)
    (hdots : ∀ x ∈ dots, decide (x = ['.']) = true) (hslash : '/' ∉ first) (hnil : first ≠ [])
    (hdot : first ≠ ['.']) : d.Heads p l ⟨first⟩ more := by
  obtain ⟨j, hj⟩ := followWithin_parts hp (Tree.found?_of_node? hl)
  refine ⟨?_, hnil, hdot, j, ?_⟩
  · rw [← Path.joined_cons_eq, p.chars_eq_joined, hpieces]
    by_cases hempty : dots = []
    · simp [hempty]
    · rw [Text.joined_append '/' hempty (by simp)]
      exact (List.sublist_cons_self _ _).trans (List.sublist_append_right _ _)
  · have hwhole : p.parts = dots.filter (· != []) ++
        ([first].filter (· != []) ++ more.filter (· != [])) := by
      rw [← List.filter_append, ← List.filter_append, Path.parts, hpieces]
      rfl
    have hstart : d.start ⟨first⟩ = d.start p := by
      simp only [start, Tree.startOf, habs, Path.isAbsolute_mk hslash]
    rw [← Tree.followWithin_dropWhile_dot, hwhole, List.append_assoc,
      List.dropWhile_append_of_pos fun x hx => hdots x (List.mem_filter.1 hx).1,
      Tree.followWithin_dropWhile_dot, List.append_assoc] at hj
    rw [Path.parts_mk hslash, hstart, hj]

/-- A path of dots leads to the working directory. -/
theorem here_of_dots (habs : p.isAbsolute = false)
    (hdots : ∀ x ∈ p.pieces, decide (x = ['.']) = true) : d.here = l := by
  obtain ⟨j, hj⟩ := followWithin_parts hp (Tree.found?_of_node? hl)
  have hnone : (p.parts ++ [['.']]).dropWhile (· = ['.']) = [] := by
    refine List.dropWhile_eq_nil_iff.2 fun part hpart => ?_
    rcases List.mem_append.1 hpart with hpart | hpart
    · exact hdots part (List.mem_filter.1 hpart).1
    · simpa using hpart
  rw [← Tree.followWithin_dropWhile_dot, hnone, start, Tree.startOf, habs] at hj
  cases hj
  rfl

include hs

omit hp hl in
/-- Dots in front do not move a search. -/
theorem foldlM_searchStep_dots {dots : List (List Char)}
    (hdots : ∀ x ∈ dots, decide (x = ['.']) = true) (more : List (List Char)) :
    (dots ++ more).foldlM d.searchStep ⟨['.']⟩ = more.foldlM d.searchStep ⟨['.']⟩ := by
  induction dots with
  | nil => rfl
  | cons dot rest ih =>
    obtain ⟨hdot, hrest⟩ := List.forall_mem_cons.1 hdots
    obtain rfl : dot = ['.'] := of_decide_eq_true hdot
    have hhere := isDirectory_here hs
    have hstep : d.searchStep ⟨['.']⟩ ['.'] = some ⟨['.']⟩ :=
      searchStep_eq_some rfl hhere (exists_of_isDirectory hhere)
    rw [List.cons_append, List.foldlM_cons, hstep]
    exact ih hrest

theorem searchPath?_of_absolute (habs : p.isAbsolute = true) :
    ∃ q, d.searchPath? p = some q ∧ d.resolve q = .ok l := by
  have hcheck := (resolve_eq_ok.1 hp).1
  obtain ⟨-, hchars, -⟩ := checkText_iff.1 hcheck
  obtain ⟨rest, hrest⟩ : ∃ rest, p.chars = '/' :: rest := by
    cases hc : p.chars with
    | nil => exact absurd hc hchars
    | cons c rest => exact ⟨rest, by simpa [Path.isAbsolute, hc] using habs⟩
  obtain ⟨first, more, hfirst⟩ := List.exists_cons_of_ne_nil (Text.split_ne_nil '/' rest)
  have hpieces : p.pieces = [] :: first :: more := by
    simp [Path.pieces, hrest, Text.split, hfirst]
  have hslash : ∀ piece ∈ first :: more, '/' ∉ piece := fun piece hm =>
    Text.notMem_of_mem_split (hfirst ▸ hm)
  have hheads := heads_of_absolute hp hl hpieces (hslash first List.mem_cons_self)
  have hroot : d.isDirectory ⟨['/']⟩ = true :=
    isDirectory_iff.2 ⟨[], rfl, Tree.found?_of_node? d.tree.node?_nil⟩
  have hjoin : (⟨'/' :: first⟩ : Path) = (⟨['/']⟩ : Path).join ⟨first⟩ := by
    rw [Path.join_of_relative (Path.isAbsolute_mk (hslash first List.mem_cons_self))]
    rfl
  rw [searchPath?_eq hchars, if_pos habs, hpieces, List.tail_cons]
  exact hheads.foldlM_cons hs hcheck hjoin hroot hslash

theorem searchPath?_of_relative (habs : p.isAbsolute = false) :
    if (p.pieces.dropWhile (· = ['.'])).head? = some [] then d.searchPath? p = none
    else ∃ q, d.searchPath? p = some q ∧ d.resolve q = .ok l := by
  have hcheck := (resolve_eq_ok.1 hp).1
  obtain ⟨-, hchars, -⟩ := checkText_iff.1 hcheck
  have hdots : ∀ x ∈ p.pieces.takeWhile (· = ['.']), decide (x = ['.']) = true :=
    List.all_eq_true.1 List.all_takeWhile
  have hfront := List.takeWhile_append_dropWhile (p := (· = ['.'])) (l := p.pieces)
  have hsearch : d.searchPath? p = p.pieces.foldlM d.searchStep ⟨['.']⟩ := by
    rw [searchPath?_eq hchars, if_neg (by simp [habs])]
  rw [hsearch]
  generalize p.pieces.takeWhile (· = ['.']) = dots at hdots hfront
  cases hdrop : p.pieces.dropWhile (· = ['.']) with
  | nil =>
    rw [hdrop, List.append_nil] at hfront
    obtain rfl := here_of_dots hp hl habs (hfront ▸ hdots)
    have hfold := foldlM_searchStep_dots hs hdots []
    rw [List.append_nil, hfront] at hfold
    exact ⟨_, hfold, rfl⟩
  | cons first more =>
    rw [hdrop] at hfront
    rw [← hfront, foldlM_searchStep_dots hs hdots]
    by_cases hnil : first = []
    · subst hnil
      rw [if_pos (by rfl)]
      rfl
    · have hpieces : ∀ piece ∈ p.pieces, '/' ∉ piece := fun piece => Text.notMem_of_mem_split
      have hslash : ∀ piece ∈ first :: more, '/' ∉ piece := fun piece hm =>
        hpieces piece (hfront ▸ List.mem_append_right dots hm)
      have hdot : first ≠ ['.'] := by
        have hne : p.pieces.dropWhile (· = ['.']) ≠ [] := by simp [hdrop]
        simpa [hdrop] using List.head_dropWhile_not (· = ['.']) hne
      have hheads := heads_of_relative hp hl habs hfront.symm hdots
        (hslash first List.mem_cons_self) hnil hdot
      rw [if_neg (by simpa using hnil)]
      exact hheads.foldlM_cons hs hcheck rfl (isDirectory_here hs) hslash

/-- **A search finds the directory to which a path leads**, unless the path is relative and begins,
dots apart, with an empty part. -/
theorem searchPath?_cases :
    if p.stumbles then d.searchPath? p = none
    else ∃ q, d.searchPath? p = some q ∧ d.resolve q = .ok l := by
  cases habs : p.isAbsolute with
  | true =>
    rw [if_neg (by simp [Path.stumbles, habs])]
    exact searchPath?_of_absolute hs hp hl habs
  | false =>
    have hrelative := searchPath?_of_relative hs hp hl habs
    simpa only [Path.stumbles, habs, Bool.not_false, Bool.true_and, decide_eq_true_eq] using
      hrelative

end Search

end Disk

/-! ## What is in the directory -/

/-- An entry of a directory is a regular file or a link that leads to one. -/
inductive Tree.HoldsFile (t : Tree) (l : Location) (n : Name) : Prop
  | file (content : Content) (mode : Nat) (h : t.node? (l ++ [n]) = some (.file content mode))
  | link (target : Path) (h : t.node? (l ++ [n]) = some (.link target)) (m : Location)
      (content : Content) (mode : Nat) (hr : t.Reaches l [n] m)
      (hm : t.node? m = some (.file content mode))

namespace Disk

/-- The names are those of the wanted files in the directory `l`, in ascending order, as far as they
can be looked up behind the path `q`. Such a path leads to the entry of that name, and is that of a
regular file unless it is too long or its name is. -/
structure Finds (d : Disk) (q : Path) (l : Location) (wanted : Name → Prop) (names : List Name) :
    Prop where
  mem_iff : ∀ n, n ∈ names ↔
    wanted n ∧ d.tree.HoldsFile l n ∧ ∃ m, d.resolve (entry q n) = .ok m
  ascending : names.Pairwise fun a b => a ≠ b ∧ lexLe (fun c e => decide (c < e)) a b = true
  leads : ∀ n ∈ names, ∀ m, d.tree.Leads d.here (entry q n) m ↔ d.tree.Reaches l [n] m
  resolves : ∀ n content mode, d.tree.node? (l ++ [n]) = some (.file content mode) →
    ((∃ m, d.resolve (entry q n) = .ok m) ↔ Short [n] ∧ (entry q n).fits = true)

section Entry

variable {d : Disk} {q : Path} {l : Location} (hq : d.resolve q = .ok l)
  (hl : d.tree.node? l = some .directory)
include hq

/-- The path of an entry is its name or ends with it behind the path of the directory. -/
theorem entry_cases (n : Name) :
    (entry q n = .ofNames [n] ∧ d.here = l) ∨ entry q n = q.join (.ofNames [n]) := by
  unfold entry
  split
  · next hdot =>
    obtain rfl : q = ⟨['.']⟩ := by
      cases q
      exact congrArg Path.mk hdot
    have e : d.resolve ⟨['.']⟩ = .ok d.here := rfl
    rw [e] at hq
    exact .inl ⟨rfl, Except.ok.inj hq⟩
  · exact .inr rfl

include hl

theorem leads_entry_iff {n : Name} (hn : n.isPlain = true) (m : Location) :
    d.tree.Leads d.here (entry q n) m ↔ d.tree.Reaches l [n] m := by
  have hplain : Path.Plain [n] := by simpa [Path.Plain] using hn
  rcases entry_cases hq n with ⟨e, rfl⟩ | e
  · rw [e, Tree.Leads, Tree.startOf, Path.isAbsolute_ofNames hplain, Path.steps_ofNames hplain]
    rfl
  · rw [e, Tree.leads_join_ofNames_iff (leads_of_resolve hq) (Tree.found?_of_node? hl) hplain]

theorem resolve_entry_iff {n : Name} {content : Content} {mode : Nat}
    (hn : d.tree.node? (l ++ [n]) = some (.file content mode)) :
    (∃ m, d.resolve (entry q n) = .ok m) ↔ Short [n] ∧ (entry q n).fits = true := by
  have hplain := Tree.plain_of_node? hn
  have hlink : ∀ target, Node.file content mode ≠ .link target := fun _ e => by cases e
  constructor
  · rintro ⟨m, hm⟩
    have hleads := (leads_entry_iff hq hl (hplain n List.mem_cons_self) m).1 (leads_of_resolve hm)
    obtain ⟨-, -, hfits⟩ := checkText_iff.1 (resolve_eq_ok.1 hm).1
    exact ⟨((Tree.reaches_names_iff hn hlink).1 hleads).1, hfits⟩
  · rintro ⟨hshort, hfits⟩
    rcases entry_cases hq n with ⟨e, rfl⟩ | e
    · rw [e] at hfits ⊢
      refine ⟨d.here ++ [n], resolve_eq_ok.2 ⟨checkText_iff.2 ⟨Path.nul_notMem_ofNames hplain,
        Path.chars_ofNames_ne_nil hplain (by simp), hfits⟩, ?_⟩⟩
      rw [start, Tree.startOf, Path.isAbsolute_ofNames hplain, Path.steps_ofNames hplain,
        Tree.follow_eq_ok_iff]
      rcases Tree.walk_names hn hlink with ⟨-, hw⟩ | ⟨hlong, -⟩
      · exact ⟨maxLinks, by simp [Tree.followWithin, maxLinks, hw]⟩
      · exact absurd hshort hlong
    · rw [e] at hfits ⊢
      exact ⟨_, resolve_join_ofNames hq hl (by simp) hn hlink hshort hfits⟩

/-- The path of an entry is that of a file exactly when it can be looked up and the entry is one. -/
theorem isFile_entry_iff {n : Name} {node : Node} (hn : d.tree.node? (l ++ [n]) = some node) :
    d.isFile (entry q n) = true ↔
      d.tree.HoldsFile l n ∧ ∃ m, d.resolve (entry q n) = .ok m := by
  have hplain := Tree.plain_of_node? hn n List.mem_cons_self
  rw [isFile_iff]
  constructor
  · rintro ⟨content, mode, hnode⟩
    obtain ⟨m, hm, hfile⟩ := node?_eq_file_iff.1 hnode
    have hreach := (leads_entry_iff hq hl hplain m).1 (leads_of_resolve hm)
    refine ⟨?_, m, hm⟩
    cases node with
    | file content mode => exact .file content mode hn
    | link target => exact .link target hn m content mode hreach hfile
    | directory =>
      obtain ⟨-, rfl⟩ := (Tree.reaches_names_iff hn fun _ e => by cases e).1 hreach
      rw [hn] at hfile
      cases hfile
  · rintro ⟨hfile, m, hm⟩
    have hreach := (leads_entry_iff hq hl hplain m).1 (leads_of_resolve hm)
    cases hfile with
    | file content mode h =>
      obtain ⟨-, rfl⟩ := (Tree.reaches_names_iff h fun _ e => by cases e).1 hreach
      exact ⟨content, mode, node?_of_resolve hm h⟩
    | link target h k content mode hr hk =>
      obtain rfl := hr.unique hreach
      exact ⟨content, mode, node?_of_resolve hm hk⟩

end Entry

/-- Entries of one directory come in the order of their names. -/
theorem le_entry (q : Path) (hq : q.chars ≠ []) {a b : Name} (ha : a.isPlain = true)
    (hb : b.isPlain = true) :
    (entry q a).le (entry q b) = lexLe (fun c e => decide (c < e)) a b := by
  have hbehind (front : List Path.Component) : lexLe Path.Component.before
      (front ++ [.name a]) (front ++ [.name b]) = lexLe (fun c e => decide (c < e)) a b := by
    induction front with
    | nil =>
      by_cases e : a = b
      · subst e
        have hself := lexLe_total Path.isStrict_lt a a
        rw [or_self] at hself
        simpa [lexLe] using hself.symm
      · simp [lexLe, Path.Component.before, e]
    | cons first rest ih => simpa [lexLe] using ih
  have hplain {n : Name} (hn : n.isPlain = true) : Path.Plain [n] := by
    simpa [Path.Plain] using hn
  have hcomponents : ∃ front, ∀ n : Name, n.isPlain = true →
      (entry q n).components = front ++ [.name n] := by
    by_cases hdot : q.chars = ['.']
    · refine ⟨[], fun n hn => ?_⟩
      rw [entry, if_pos hdot]
      exact Path.components_ofNames (hplain hn)
    · refine ⟨q.components, fun n hn => ?_⟩
      rw [entry, if_neg hdot]
      exact Path.components_join_ofNames hq (hplain hn)
  obtain ⟨front, hfront⟩ := hcomponents
  rw [Path.le, hfront a ha, hfront b hb, hbehind]

/-- The names of the wanted files of a directory, in the order in which the tree has them. -/
def fileNames (d : Disk) (q : Path) (l : Location) (wanted : Name → Bool) : List Name :=
  ((d.tree.names l).filter wanted).filter fun n => d.isFile (entry q n)

section Names

variable {d : Disk} {q : Path} {l : Location} {wanted : Name → Bool}

theorem plain_of_mem_fileNames {n : Name} (hn : n ∈ d.fileNames q l wanted) :
    n.isPlain = true := by
  obtain ⟨node, hnode⟩ := Tree.mem_names_iff.1 (List.mem_filter.1 (List.mem_filter.1 hn).1).1
  exact Tree.plain_of_node? hnode n List.mem_cons_self

variable (hq : d.resolve q = .ok l) (hl : d.tree.node? l = some .directory)
include hq hl

theorem mem_fileNames_iff {n : Name} : n ∈ d.fileNames q l wanted ↔
    wanted n = true ∧ d.tree.HoldsFile l n ∧ ∃ m, d.resolve (entry q n) = .ok m := by
  simp only [fileNames, List.mem_filter, Tree.mem_names_iff]
  constructor
  · rintro ⟨⟨⟨node, hn⟩, hwanted⟩, hfile⟩
    exact ⟨hwanted, (isFile_entry_iff hq hl hn).1 hfile⟩
  · rintro ⟨hwanted, hfile, hm⟩
    obtain ⟨node, hn⟩ : ∃ node, d.tree.node? (l ++ [n]) = some node := by
      cases hfile with
      | file content mode h => exact ⟨_, h⟩
      | link target h => exact ⟨_, h⟩
    exact ⟨⟨⟨node, hn⟩, hwanted⟩, (isFile_entry_iff hq hl hn).2 ⟨hfile, hm⟩⟩

/-- **A search lists the wanted files of the directory that it finds**, in the order of their
names. -/
theorem exists_finds {p : Path} (wanted : Name → Bool) (hsearch : d.searchPath? p = some q) :
    ∃ names, d.Finds q l (wanted · = true) names ∧ d.filesIn p wanted = names.map (entry q) := by
  obtain ⟨-, hchars, -⟩ := checkText_iff.1 (resolve_eq_ok.1 hq).1
  have hperm := List.mergeSort_perm (d.fileNames q l wanted) (lexLe fun c e => decide (c < e))
  have hfiles : d.filesIn p wanted = Path.sort ((d.fileNames q l wanted).map (entry q)) := by
    simp only [filesIn, hsearch, hq, hl, if_true, fileNames, List.filter_map]
    rfl
  refine ⟨(d.fileNames q l wanted).mergeSort (lexLe fun c e => decide (c < e)), ?_, ?_⟩
  · refine ⟨fun n => hperm.mem_iff.trans (mem_fileNames_iff hq hl), ?_, fun n hn => ?_,
      fun n content mode hn => resolve_entry_iff hq hl hn⟩
    · have hnodup := hperm.nodup_iff.2 (((d.tree.nodup_names l).filter _).filter _)
      refine List.Pairwise.and hnodup (List.pairwise_mergeSort (fun _ _ _ => ?_) (fun a b => ?_) _)
      · exact lexLe_trans Path.isStrict_lt
      · rw [Bool.or_eq_true]
        exact lexLe_total Path.isStrict_lt a b
    · exact leads_entry_iff hq hl (plain_of_mem_fileNames (hperm.mem_iff.1 hn))
  · rw [hfiles, Path.sort]
    refine (List.map_mergeSort fun a ha b hb => ?_).symm
    exact (le_entry q hchars (plain_of_mem_fileNames ha) (plain_of_mem_fileNames hb)).symm

end Names

theorem Finds.congr {d : Disk} {q : Path} {l : Location} {wanted wanted' : Name → Prop}
    {names : List Name} (h : d.Finds q l wanted names) (hw : ∀ n, wanted n ↔ wanted' n) :
    d.Finds q l wanted' names :=
  ⟨fun n => (h.mem_iff n).trans (and_congr_left fun _ => hw n), h.ascending, h.leads, h.resolves⟩

end Disk
end StatusBadges
