import StatusBadges.Path.Basic
import StatusBadges.Text.Utf8
/-!
# File trees

A file tree gives a node to each location below its root: a file, a directory or a symbolic link.
A location is the list of names that leads to it, so that no two spellings of a location exist.
`Tree.node?` is the view through which trees are compared. Three invariants are part of the type:
a location has one node, what lies above a node is a directory, and the names of nodes are plain.

Only files carry permission bits. Directories are assumed to carry none: whoever runs the program
may list every directory, go through it and change what it holds.
-/

namespace StatusBadges

/-- The names that lead from the root of the file system to a node. -/
abbrev Location := List Name

/-- The content of a file: a text, or octets that are the encoding of no text. -/
inductive Content where
  /-- A text, stored as its UTF-8 octets. -/
  | text (t : String)
  /-- Octets that are not well formed as a whole. -/
  | raw (bytes : List UInt8)
  deriving DecidableEq

def Content.ofBytes (bytes : List UInt8) : Content :=
  match Text.Utf8.text? bytes with
  | some t => .text t
  | none => .raw bytes

inductive Node where
  | file (content : Content) (mode : Nat)
  | directory
  /-- A symbolic link to a path, which is seen from the directory that holds the link. -/
  | link (target : Path)
  deriving DecidableEq

namespace Node

def isFile : Node → Bool
  | .file _ _ => true
  | _ => false

/-- Whether the node is a regular file that someone may execute. -/
def isExecutable : Node → Bool
  | .file _ mode => mode &&& 0o111 != 0
  | _ => false

/-- Whether the permission bits let the owner of a file read it. -/
def mayRead (mode : Nat) : Bool := mode &&& 0o400 != 0

/-- Whether the permission bits let the owner of a file write it. -/
def mayWrite (mode : Nat) : Bool := mode &&& 0o200 != 0

/-- Whether the permission bits let the owner of a file execute it. -/
def mayExecute (mode : Nat) : Bool := mode &&& 0o100 != 0

/-- Whether the node is a regular file that its owner may execute. -/
def isProgram : Node → Bool
  | .file _ mode => mayExecute mode
  | _ => false

end Node

structure Tree where
  entries : List (Location × Node)
  distinct : (entries.map (·.1)).Nodup
  /-- The root is no entry, and every entry stands in the root or in a directory. -/
  rooted : ∀ e ∈ entries,
    e.1 ≠ [] ∧ (e.1.dropLast = [] ∨ (e.1.dropLast, Node.directory) ∈ entries)
  /-- A lookup can go through every name. -/
  named : ∀ e ∈ entries, ∀ n ∈ e.1, n.isPlain = true

namespace Tree

def empty : Tree := ⟨[], List.nodup_nil, by simp, by simp⟩

/-- The node at a location. The root is a directory. -/
def node? (t : Tree) (l : Location) : Option Node :=
  if l = [] then some .directory else t.entries.lookup l

/-- Looking up a key finds its entry when keys are distinct. -/
theorem lookup_eq_some_iff {entries : List (Location × Node)}
    (h : (entries.map (·.1)).Nodup) {l : Location} {n : Node} :
    entries.lookup l = some n ↔ (l, n) ∈ entries := by
  induction entries with
  | nil => simp
  | cons e rest ih =>
    obtain ⟨k, m⟩ := e
    simp only [List.map_cons, List.nodup_cons] at h
    by_cases hk : l = k
    · subst hk
      simp only [List.lookup_cons, beq_self_eq_true, Option.some.injEq, List.mem_cons,
        Prod.mk.injEq, true_and]
      constructor
      · rintro rfl; exact Or.inl rfl
      · rintro (rfl | hm)
        · rfl
        · exact absurd (List.mem_map.2 ⟨(l, n), hm, rfl⟩) h.1
    · have hb : (l == k) = false := by simpa using hk
      simp only [List.lookup_cons, hb, ih h.2, List.mem_cons, Prod.mk.injEq, hk, false_and,
        false_or]

theorem node?_eq_some_iff {t : Tree} {l : Location} {n : Node} (hl : l ≠ []) :
    t.node? l = some n ↔ (l, n) ∈ t.entries := by
  rw [node?, if_neg hl, lookup_eq_some_iff t.distinct]

@[simp] theorem node?_nil (t : Tree) : t.node? [] = some .directory := by simp [node?]

/-- What lies above a node is a directory. -/
theorem node?_dropLast {t : Tree} {l : Location} {n : Node} (h : t.node? l = some n) :
    t.node? l.dropLast = some .directory := by
  by_cases hl : l = []
  · subst hl; simp
  · rcases (t.rooted _ ((node?_eq_some_iff hl).1 h)).2 with hd | hd
    · simp only at hd; simp [hd]
    · by_cases hr : l.dropLast = []
      · simp [hr]
      · exact (node?_eq_some_iff hr).2 hd

/-- The names that lead to a node are plain. -/
theorem isPlain_of_node? {t : Tree} {l : Location} {n : Node} (h : t.node? l = some n) :
    ∀ name ∈ l, name.isPlain = true := by
  by_cases hl : l = []
  · subst hl; simp
  · exact t.named _ ((node?_eq_some_iff hl).1 h)

/-! ## Putting a node -/

/-- Whether a node can be put at a location: it has a plain name in a directory and is no directory
yet. -/
def accepts (t : Tree) (l : Location) : Bool :=
  l.getLast?.any Name.isPlain && t.node? l.dropLast = some .directory &&
    t.node? l != some .directory

theorem accepts_iff {t : Tree} {l : Location} :
    t.accepts l = true ↔ ∃ directory name, l = directory ++ [name] ∧ name.isPlain = true ∧
      t.node? directory = some .directory ∧ t.node? l ≠ some .directory := by
  rcases List.eq_nil_or_concat l with rfl | ⟨directory, name, rfl⟩
  · simp [accepts]
  · simp [accepts, and_assoc]

/-- The tree with a node put at a location that accepts it, in place of the one there. -/
def put (t : Tree) (l : Location) (n : Node) : Tree :=
  if h : t.accepts l = true then
    { entries := t.entries.filter (·.1 != l) ++ [(l, n)]
      distinct := by
        rw [List.map_append, List.nodup_append]
        refine ⟨(t.distinct.sublist (List.filter_sublist.map _)), by simp, ?_⟩
        simp only [List.mem_map, List.mem_filter, List.map_cons, List.map_nil,
          List.mem_singleton]
        rintro _ ⟨e, ⟨-, he⟩, rfl⟩ _ rfl
        simpa using he
      rooted := by
        obtain ⟨directory, name, rfl, -, hp, hn⟩ := accepts_iff.1 h
        have hl : directory ++ [name] ≠ [] := by simp
        intro e he
        simp only [List.mem_append, List.mem_filter, bne_iff_ne, ne_eq, List.mem_singleton] at he
        have keep : ∀ q, (q, Node.directory) ∈ t.entries → (q, Node.directory) ∈
            t.entries.filter (·.1 != directory ++ [name]) ++ [(directory ++ [name], n)] := by
          intro q hq
          have hne : q ≠ directory ++ [name] := by
            rintro rfl
            exact hn ((node?_eq_some_iff hl).2 hq)
          simp [hq, hne]
        rcases he with ⟨hm, -⟩ | rfl
        · obtain ⟨h0, h1⟩ := t.rooted e hm
          exact ⟨h0, h1.imp_right (keep _)⟩
        · refine ⟨hl, ?_⟩
          rw [List.dropLast_concat]
          by_cases hd : directory = []
          · exact Or.inl hd
          · exact Or.inr (keep _ ((node?_eq_some_iff hd).1 hp))
      named := by
        obtain ⟨directory, name, rfl, hname, hp, -⟩ := accepts_iff.1 h
        intro e he
        simp only [List.mem_append, List.mem_filter, List.mem_singleton] at he
        rcases he with ⟨hm, -⟩ | rfl
        · exact t.named e hm
        · intro k hk
          rcases List.mem_append.1 hk with hk | hk
          · exact isPlain_of_node? hp k hk
          · rw [List.mem_singleton.1 hk]; exact hname }
  else t

/-- After a node was put at a location that accepts it, it is there and all else is as before. -/
theorem node?_put {t : Tree} {l : Location} {n : Node} (h : t.accepts l = true) (k : Location) :
    (t.put l n).node? k = if k = l then some n else t.node? k := by
  have hl : l ≠ [] := by
    obtain ⟨directory, name, rfl, -⟩ := accepts_iff.1 h
    simp
  by_cases hk : k = []
  · subst hk; simp [Ne.symm hl]
  · apply Option.ext
    intro m
    rw [node?_eq_some_iff hk]
    simp only [put, dif_pos h]
    by_cases hkl : k = l
    · subst hkl; simp [eq_comm]
    · simp [hkl, node?_eq_some_iff hk]

/-! ## Removing nodes -/

/-- The tree of the entries that are kept, with what lies above them. -/
def restrict (t : Tree) (keep : Location × Node → Bool)
    (h : ∀ e ∈ t.entries, keep e = true → e.1.dropLast ≠ [] →
      keep (e.1.dropLast, .directory) = true) : Tree where
  entries := t.entries.filter keep
  distinct := t.distinct.sublist (List.filter_sublist.map _)
  rooted := by
    intro e he
    rw [List.mem_filter] at he
    obtain ⟨h0, h1⟩ := t.rooted e he.1
    refine ⟨h0, ?_⟩
    by_cases hd : e.1.dropLast = []
    · exact Or.inl hd
    · refine Or.inr (List.mem_filter.2 ⟨h1.resolve_left hd, h e he.1 he.2 hd⟩)
  named := fun e he => t.named e (List.mem_filter.1 he).1

theorem node?_restrict {t : Tree} {keep : Location × Node → Bool} {h} {l : Location}
    (hl : l ≠ []) : (t.restrict keep h).node? l = (t.node? l).filter fun n => keep (l, n) := by
  apply Option.ext
  intro n
  rw [node?_eq_some_iff hl, Option.filter_eq_some_iff, node?_eq_some_iff hl]
  simp [restrict]

/-- The tree without the files and links that a property holds of. -/
def removeLeaves (t : Tree) (p : Location → Node → Bool) : Tree :=
  t.restrict (fun e => e.2 = .directory || !p e.1 e.2) (by simp)

/-- What lies above a location that is not below `l` is not below it either. -/
theorem isPrefixOf_dropLast {l k : Location} (h : l.isPrefixOf k.dropLast = true) :
    l.isPrefixOf k = true := by
  rw [List.isPrefixOf_iff_prefix] at *
  exact h.trans (List.dropLast_prefix k)

/-- The tree without everything below a location. -/
def clear (t : Tree) (l : Location) : Tree :=
  t.restrict (fun e => !l.isPrefixOf e.1 || e.1 = l) (by
    intro e _ hk hne
    simp only [Bool.or_eq_true, Bool.not_eq_true', decide_eq_true_eq] at hk ⊢
    cases hp : l.isPrefixOf e.1.dropLast
    · exact Or.inl rfl
    · rcases hk with hk | hk
      · rw [isPrefixOf_dropLast hp] at hk; cases hk
      · rw [List.isPrefixOf_iff_prefix] at hp
        subst hk
        have hlen := hp.length_le
        have hpos : 0 < e.1.dropLast.length := List.length_pos_iff.2 hne
        simp only [List.length_dropLast] at hlen hpos
        omega)

/-- The tree without a location and everything below it. -/
def prune (t : Tree) (l : Location) : Tree :=
  t.restrict (fun e => !l.isPrefixOf e.1) (by
    intro e _ hk _
    simp only [Bool.not_eq_true'] at hk ⊢
    cases hp : l.isPrefixOf e.1.dropLast
    · rfl
    · rw [isPrefixOf_dropLast hp] at hk; cases hk)

/-! ## Listing -/

def names (t : Tree) (l : Location) : List Name :=
  t.entries.filterMap fun e => if e.1.dropLast = l then e.1.getLast? else none

theorem mem_names_iff {t : Tree} {l : Location} {x : Name} :
    x ∈ t.names l ↔ ∃ n, t.node? (l ++ [x]) = some n := by
  simp only [names, List.mem_filterMap]
  constructor
  · rintro ⟨⟨k, n⟩, he, hx⟩
    split at hx
    · next hk =>
      obtain ⟨before, hb⟩ := List.getLast?_eq_some_iff.1 hx
      simp only at hb hk
      rw [hb, List.dropLast_concat] at hk
      subst hk
      exact ⟨n, (node?_eq_some_iff (by simp)).2 (hb ▸ he)⟩
    · cases hx
  · rintro ⟨n, hn⟩
    refine ⟨(l ++ [x], n), (node?_eq_some_iff (by simp)).1 hn, ?_⟩
    simp

/-- The files below a location, as the names that lead to them from there. -/
def filesBelow (t : Tree) (l : Location) : List (List Name × Node) :=
  t.entries.filterMap fun e =>
    if l.isPrefixOf e.1 && e.1 != l && e.2.isFile then some (e.1.drop l.length, e.2) else none

end Tree
end StatusBadges
