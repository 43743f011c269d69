import StatusBadges.Storage.Disk

/-!
# Lookups along appended names

A lookup along `xs ++ ys` goes on along `ys` from the directory at which `xs` ends, with the links
that are left (`followWithin_append`). `Tree.Reaches` is the lookup without a limit on links: it is
functional (`Reaches.unique`) and splits at every directory (`reaches_append_iff`). `Tree.Leads` is
where a path leads from a directory in this sense, and `Disk.resolve` finds it where the limits
allow (`leads_of_resolve`).
-/

namespace StatusBadges

theorem Path.nil_notMem_parts (p : Path) : [] ∉ p.parts := by
  simp [parts]

theorem Path.nil_notMem_steps (p : Path) : [] ∉ p.steps := by
  intro h
  rcases List.mem_append.1 h with hp | hd
  · exact p.nil_notMem_parts hp
  · split at hd <;> simp at hd

namespace Tree

/-- Above a node there are directories only. -/
theorem directory_above {t : Tree} {l k : Location} {n : Node} (h : t.node? k = some n)
    (hp : l <+: k) (hne : l ≠ k) : t.node? l = some .directory := by
  obtain ⟨rest, rfl⟩ := hp
  induction rest generalizing l with
  | nil => simp at hne
  | cons x rest ih =>
    have hx : ∃ m, t.node? (l ++ [x]) = some m := by
      cases rest with
      | nil => exact ⟨n, h⟩
      | cons y rest => exact ⟨_, ih (by simpa using h) (by simp)⟩
    obtain ⟨m, hm⟩ := hx
    have hl := node?_dropLast hm
    rwa [List.dropLast_concat] at hl

theorem not_isRemoved_of_node? {t : Tree} {l : Location} {n : Node} (h : t.node? l = some n) :
    ¬ Location.isRemoved l = true := by
  intro hr
  have hl : l.getLast? = some [] := by simpa [Location.isRemoved] using hr
  have hp := isPlain_of_node? h [] (List.mem_of_getLast? hl)
  cases hp

theorem found?_of_node? {t : Tree} {l : Location} {n : Node} (h : t.node? l = some n) :
    t.found? l = some n := by
  rw [found?, if_neg (not_isRemoved_of_node? h), h]

/-! ## Walks -/

/-- What one name of a walk can do, whatever names follow it: the walk goes on from a directory, it
fails, it ends unless names follow, or it stops at a link. -/
inductive Stride (t : Tree) (l : Location) (s : Name) : Prop where
  | on (k : Location) (h : ∀ rest, t.walk l (s :: rest) = t.walk k rest)
  | blocked (cause : Cause) (h : ∀ rest, t.walk l (s :: rest) = .failed cause)
  | last (cause : Cause) (hn : t.node? (l ++ [s]) ≠ some .directory)
      (h : ∀ rest, t.walk l (s :: rest) =
        if rest = [] then .arrived (l ++ [s]) else .failed cause)
  | link (p : Path) (h : ∀ rest, t.walk l (s :: rest) = .atLink l p rest)

theorem stride (t : Tree) (l : Location) (s : Name) : Stride t l s := by
  by_cases hd : s = ['.']
  · exact .on l fun rest => by simp [walk, hd]
  by_cases hu : s = ['.', '.']
  · exact .on l.dropLast fun rest => by simp [walk, hu]
  by_cases hr : Location.isRemoved l = true
  · exact .blocked .notFound fun rest => by simp [walk, hd, hu, hr]
  by_cases hn : maxNameOctets < octetCount s
  · exact .blocked .nameTooLong fun rest => by simp [walk, hd, hu, hr, hn]
  cases hnode : t.node? (l ++ [s]) with
  | none =>
    by_cases hl : t.node? l = some .directory
    · exact .last .notFound (by simp [hnode]) fun rest => by
        simp [walk, hd, hu, hr, hn, hnode, hl]
    · exact .blocked .notFound fun rest => by simp [walk, hd, hu, hr, hn, hnode, hl]
  | some n =>
    cases n with
    | directory => exact .on (l ++ [s]) fun rest => by simp [walk, hd, hu, hr, hn, hnode]
    | file c m =>
      exact .last .notADirectory (by simp [hnode]) fun rest => by
        simp [walk, hd, hu, hr, hn, hnode]
    | link p => exact .link p fun rest => by simp [walk, hd, hu, hr, hn, hnode]

/-- A walk that ends in a directory goes on from there. -/
theorem walk_append {t : Tree} {l m : Location} {xs : List Name}
    (h : t.walk l (xs ++ [['.']]) = .arrived m) (ys : List Name) :
    t.walk l (xs ++ ys) = t.walk m ys := by
  induction xs generalizing l with
  | nil =>
    have hm : l = m := by simpa [walk] using h
    rw [hm, List.nil_append]
  | cons s xs ih =>
    rw [List.cons_append] at h ⊢
    -- The dot behind `xs` leaves no room for a file or a missing name at their end.
    rcases stride t l s with ⟨k, hk⟩ | ⟨cause, hk⟩ | ⟨cause, hn, hk⟩ | ⟨p, hk⟩
    · rw [hk] at h ⊢; exact ih h
    · rw [hk] at h; cases h
    · rw [hk, if_neg (by simp)] at h; cases h
    · rw [hk] at h; cases h

/-- A walk that ends at a link leaves the appended names behind it. -/
theorem walk_append_atLink {t : Tree} {l d : Location} {p : Path} {xs left : List Name}
    (h : t.walk l xs = .atLink d p left) (ys : List Name) :
    t.walk l (xs ++ ys) = .atLink d p (left ++ ys) := by
  induction xs generalizing l with
  | nil => cases h
  | cons s xs ih =>
    rw [List.cons_append]
    rcases stride t l s with ⟨k, hk⟩ | ⟨cause, hk⟩ | ⟨cause, hn, hk⟩ | ⟨q, hk⟩
    · rw [hk] at h ⊢; exact ih h
    · rw [hk] at h; cases h
    · rw [hk] at h; split at h <;> cases h
    · rw [hk] at h ⊢
      cases h
      rfl

/-- A dot at the end of the names does not change the link at which a walk stops. -/
theorem walk_atLink_of_dot {t : Tree} {l d : Location} {p : Path} {xs left : List Name}
    (h : t.walk l (xs ++ [['.']]) = .atLink d p left) :
    ∃ left', left = left' ++ [['.']] ∧ t.walk l xs = .atLink d p left' := by
  induction xs generalizing l with
  | nil => simp [walk] at h
  | cons s xs ih =>
    rw [List.cons_append] at h
    rcases stride t l s with ⟨k, hk⟩ | ⟨cause, hk⟩ | ⟨cause, hn, hk⟩ | ⟨q, hk⟩
    · rw [hk] at h ⊢; exact ih h
    · rw [hk] at h; cases h
    · rw [hk, if_neg (by simp)] at h; cases h
    · rw [hk] at h ⊢
      cases h
      exact ⟨xs, rfl, rfl⟩

/-- A walk that does not arrive at a directory fails in the same way whatever names come behind. -/
theorem walk_append_failed {t : Tree} {l : Location} {cause : Cause} {xs ys : List Name}
    (h : t.walk l (xs ++ [['.']]) = .failed cause) (hne : ys ≠ []) :
    t.walk l (xs ++ ys) = .failed cause := by
  induction xs generalizing l with
  | nil => simp [walk] at h
  | cons s xs ih =>
    rw [List.cons_append] at h ⊢
    rcases stride t l s with ⟨k, hk⟩ | ⟨cause', hk⟩ | ⟨cause', hn, hk⟩ | ⟨q, hk⟩
    · rw [hk] at h ⊢; exact ih h
    · rw [hk] at h ⊢; exact h
    · rw [hk, if_neg (by simp)] at h
      rw [hk, if_neg (by simp [hne]), h]
    · rw [hk] at h; cases h

/-- A walk that ends in a directory ends there with a dot at its end too. -/
theorem walk_dot_of_found {t : Tree} {l m : Location} {xs : List Name}
    (h : t.walk l xs = .arrived m) (hm : t.found? m = some .directory) (hx : [] ∉ xs) :
    t.walk l (xs ++ [['.']]) = .arrived m := by
  induction xs generalizing l with
  | nil => simpa [walk] using h
  | cons s xs ih =>
    obtain ⟨hs, hx⟩ : [] ≠ s ∧ [] ∉ xs := by simpa using hx
    rw [List.cons_append]
    rcases stride t l s with ⟨k, hk⟩ | ⟨cause, hk⟩ | ⟨cause, hn, hk⟩ | ⟨q, hk⟩
    · rw [hk] at h ⊢; exact ih h hx
    · rw [hk] at h; cases h
    · rw [hk] at h
      split at h
      · cases h
        simp [found?, Location.isRemoved, Ne.symm hs, hn] at hm
      · cases h
    · rw [hk] at h; cases h

/-- The names behind a link are the last ones of the walk. -/
theorem left_of_walk_atLink {t : Tree} {l d : Location} {p : Path} {xs left : List Name}
    (h : t.walk l xs = .atLink d p left) : left <:+ xs := by
  induction xs generalizing l with
  | nil => cases h
  | cons s xs ih =>
    rcases stride t l s with ⟨k, hk⟩ | ⟨cause, hk⟩ | ⟨cause, hn, hk⟩ | ⟨q, hk⟩
    · rw [hk] at h; exact (ih h).trans (List.suffix_cons s xs)
    · rw [hk] at h; cases h
    · rw [hk] at h; split at h <;> cases h
    · rw [hk] at h
      cases h
      exact List.suffix_cons s _

/-- Dots in front of the names of a walk do nothing. -/
theorem walk_dropWhile_dot (t : Tree) (l : Location) (xs : List Name) :
    t.walk l (xs.dropWhile (· = ['.'])) = t.walk l xs := by
  induction xs with
  | nil => rfl
  | cons s xs ih =>
    by_cases hs : s = ['.']
    · subst hs
      rw [List.dropWhile_cons_of_pos (by simp), ih]
      simp [walk]
    · rw [List.dropWhile_cons_of_neg (by simpa using hs)]

/-! ## Following links -/

/-- More links than are needed do not change where names lead. -/
theorem followWithin_add {t : Tree} {b n : Nat} {l m : Location} {xs : List Name}
    (h : t.followWithin b l xs = .ok (m, n)) (k : Nat) :
    t.followWithin (b + k) l xs = .ok (m, n + k) := by
  induction b generalizing l xs with
  | zero =>
    simp only [followWithin] at h
    cases hw : t.walk l xs with
    | arrived r =>
      rw [hw] at h
      cases h
      cases k <;> simp [followWithin, hw]
    | failed cause => rw [hw] at h; cases h
    | atLink d p left => rw [hw] at h; cases h
  | succ b ih =>
    simp only [followWithin] at h
    rw [Nat.succ_add, followWithin]
    cases hw : t.walk l xs with
    | arrived r =>
      rw [hw] at h
      cases h
      rw [Nat.add_right_comm]
    | failed cause => rw [hw] at h; cases h
    | atLink d p left => rw [hw] at h; exact ih h

/-- **A lookup that ends in a directory goes on from there** with the links that are left. -/
theorem followWithin_append {t : Tree} {b n : Nat} {l m : Location} {xs : List Name}
    (h : t.followWithin b l (xs ++ [['.']]) = .ok (m, n)) (ys : List Name) :
    t.followWithin b l (xs ++ ys) = t.followWithin n m ys := by
  induction b generalizing l xs with
  | zero =>
    simp only [followWithin] at h
    cases hw : t.walk l (xs ++ [['.']]) with
    | arrived r =>
      rw [hw] at h
      cases h
      simp only [followWithin, walk_append hw]
    | failed cause => rw [hw] at h; cases h
    | atLink d p left => rw [hw] at h; cases h
  | succ b ih =>
    simp only [followWithin] at h
    cases hw : t.walk l (xs ++ [['.']]) with
    | arrived r =>
      rw [hw] at h
      cases h
      simp only [followWithin, walk_append hw]
    | failed cause => rw [hw] at h; cases h
    | atLink d p left =>
      rw [hw] at h
      obtain ⟨left', rfl, hx⟩ := walk_atLink_of_dot hw
      simp only [followWithin, walk_append_atLink hx]
      simp only [← List.append_assoc] at h ⊢
      exact ih h

/-- A lookup arrives at a directory wherever names are left. -/
theorem exists_followWithin_append {t : Tree} {b n : Nat} {l m : Location} {xs ys : List Name}
    (h : t.followWithin b l (xs ++ ys) = .ok (m, n)) (hne : ys ≠ []) :
    ∃ k j, t.followWithin b l (xs ++ [['.']]) = .ok (k, j) := by
  induction b generalizing l xs with
  | zero =>
    cases hw : t.walk l (xs ++ [['.']]) with
    | arrived k => exact ⟨k, 0, by simp [followWithin, hw]⟩
    | failed cause =>
      rw [followWithin, walk_append_failed hw hne] at h
      cases h
    | atLink d p left =>
      obtain ⟨left', -, hx⟩ := walk_atLink_of_dot hw
      rw [followWithin, walk_append_atLink hx] at h
      cases h
  | succ b ih =>
    cases hw : t.walk l (xs ++ [['.']]) with
    | arrived k => exact ⟨k, b + 1, by simp [followWithin, hw]⟩
    | failed cause =>
      rw [followWithin, walk_append_failed hw hne] at h
      cases h
    | atLink d p left =>
      obtain ⟨left', rfl, hx⟩ := walk_atLink_of_dot hw
      rw [followWithin, walk_append_atLink hx] at h
      rw [followWithin, hw]
      simp only [← List.append_assoc] at h ⊢
      exact ih h

theorem followWithin_dot_of_found {t : Tree} {b n : Nat} {l m : Location} {xs : List Name}
    (h : t.followWithin b l xs = .ok (m, n)) (hm : t.found? m = some .directory) (hx : [] ∉ xs) :
    t.followWithin b l (xs ++ [['.']]) = .ok (m, n) := by
  induction b generalizing l xs with
  | zero =>
    simp only [followWithin] at h ⊢
    cases hw : t.walk l xs with
    | arrived r =>
      rw [hw] at h
      cases h
      rw [walk_dot_of_found hw hm hx]
    | failed cause => rw [hw] at h; cases h
    | atLink d p left => rw [hw] at h; cases h
  | succ b ih =>
    simp only [followWithin] at h ⊢
    cases hw : t.walk l xs with
    | arrived r =>
      rw [hw] at h
      cases h
      rw [walk_dot_of_found hw hm hx]
    | failed cause => rw [hw] at h; cases h
    | atLink d p left =>
      rw [hw] at h
      rw [walk_append_atLink hw]
      simp only [← List.append_assoc]
      refine ih h ?_
      intro hmem
      rcases List.mem_append.1 hmem with hp | hl
      · exact Path.nil_notMem_steps p hp
      · exact hx ((left_of_walk_atLink hw).subset hl)

theorem followWithin_dropWhile_dot (t : Tree) (b : Nat) (l : Location) (xs : List Name) :
    t.followWithin b l (xs.dropWhile (· = ['.'])) = t.followWithin b l xs := by
  cases b <;> simp only [followWithin, walk_dropWhile_dot]

/-! ## Where names lead -/

/-- The names lead from `l` to `m` through any number of links. -/
def Reaches (t : Tree) (l : Location) (names : List Name) (m : Location) : Prop :=
  ∃ b n, t.followWithin b l names = .ok (m, n)

theorem Reaches.unique {t : Tree} {l m m' : Location} {xs : List Name} (h : t.Reaches l xs m)
    (h' : t.Reaches l xs m') : m = m' := by
  obtain ⟨b, n, hb⟩ := h
  obtain ⟨b', n', hb'⟩ := h'
  have e := followWithin_add hb b'
  rw [Nat.add_comm, followWithin_add hb' b] at e
  simp only [Except.ok.injEq, Prod.mk.injEq] at e
  exact e.1.symm

theorem follow_eq_ok_iff {t : Tree} {l m : Location} {xs : List Name} :
    t.follow l xs = .ok m ↔ ∃ n, t.followWithin maxLinks l xs = .ok (m, n) := by
  unfold follow
  cases t.followWithin maxLinks l xs with
  | error cause => simp [Except.map]
  | ok r => simp [Except.map, Prod.ext_iff]

theorem reaches_of_follow {t : Tree} {l m : Location} {xs : List Name}
    (h : t.follow l xs = .ok m) : t.Reaches l xs m := by
  obtain ⟨n, hn⟩ := follow_eq_ok_iff.1 h
  exact ⟨maxLinks, n, hn⟩

theorem reaches_dropWhile_dot (t : Tree) (l : Location) (xs : List Name) (m : Location) :
    t.Reaches l (xs.dropWhile (· = ['.'])) m ↔ t.Reaches l xs m := by
  simp only [Reaches, followWithin_dropWhile_dot]

/-- Names that lead to a directory and then on are names that lead on from that directory. -/
theorem reaches_append_iff {t : Tree} {l m k : Location} {xs : List Name}
    (h : t.Reaches l (xs ++ [['.']]) m) (ys : List Name) :
    t.Reaches l (xs ++ ys) k ↔ t.Reaches m ys k := by
  obtain ⟨b, n, hb⟩ := h
  constructor
  · rintro ⟨b', n', hb'⟩
    have e := followWithin_add hb' b
    rw [Nat.add_comm, followWithin_append (followWithin_add hb b')] at e
    exact ⟨_, _, e⟩
  · rintro ⟨b', n', hb'⟩
    refine ⟨b + b', n' + n, ?_⟩
    rw [followWithin_append (followWithin_add hb b'), Nat.add_comm n b']
    exact followWithin_add hb' n

/-- Where names lead is found from the directory at which the first of them end. -/
theorem reaches_append_iff_exists {t : Tree} {l m : Location} {xs ys : List Name} (hne : ys ≠ []) :
    t.Reaches l (xs ++ ys) m ↔ ∃ k, t.Reaches l (xs ++ [['.']]) k ∧ t.Reaches k ys m := by
  constructor
  · intro h
    obtain ⟨b, n, hb⟩ := h
    obtain ⟨k, j, hk⟩ := exists_followWithin_append hb hne
    exact ⟨k, ⟨b, j, hk⟩, (reaches_append_iff ⟨b, j, hk⟩ ys).1 ⟨b, n, hb⟩⟩
  · rintro ⟨k, hk, hm⟩
    exact (reaches_append_iff hk ys).2 hm

theorem Reaches.of_dot {t : Tree} {l m : Location} {xs : List Name}
    (h : t.Reaches l (xs ++ [['.']]) m) : t.Reaches l xs m := by
  have e := (reaches_append_iff (k := m) h []).2 ⟨0, 0, by simp [followWithin, walk]⟩
  rwa [List.append_nil] at e

theorem Reaches.dot {t : Tree} {l m : Location} {xs : List Name} (h : t.Reaches l xs m)
    (hm : t.found? m = some .directory) (hx : [] ∉ xs) : t.Reaches l (xs ++ [['.']]) m := by
  obtain ⟨b, n, hb⟩ := h
  exact ⟨b, n, followWithin_dot_of_found hb hm hx⟩

/-- A path leads from the directory `l` to `m`. -/
def Leads (t : Tree) (l : Location) (p : Path) (m : Location) : Prop :=
  t.Reaches (startOf p l) p.steps m

theorem Leads.unique {t : Tree} {l m m' : Location} {p : Path} (h : t.Leads l p m)
    (h' : t.Leads l p m') : m = m' :=
  Reaches.unique h h'

/-- An absolute path leads to the same location from everywhere. -/
theorem leads_iff_of_isAbsolute {t : Tree} {p : Path} (h : p.isAbsolute = true)
    (l k m : Location) : t.Leads l p m ↔ t.Leads k p m := by
  simp only [Leads, startOf, h, if_true]

end Tree

namespace Disk

theorem checkText_iff {p : Path} :
    checkText p = .ok () ↔ '\x00' ∉ p.chars ∧ p.chars ≠ [] ∧ p.fits = true := by
  simp only [checkText, checkNaming, bind, Except.bind]
  by_cases hnul : '\x00' ∈ p.chars
  · simp [hnul]
  · by_cases hnil : p.chars = [] <;> cases hfits : p.fits <;> simp [hnul, hnil]

theorem leads_of_resolve {d : Disk} {p : Path} {m : Location} (h : d.resolve p = .ok m) :
    d.tree.Leads d.here p m := by
  unfold resolve at h
  cases hc : checkText p with
  | error cause => rw [hc] at h; cases h
  | ok _ =>
    rw [hc] at h
    exact Tree.reaches_of_follow h

/-- What a slot is: the directory that the parts before the last one lead to, and that part. -/
theorem slot_eq_ok {d : Disk} {p : Path} {directory : Location} {name : Name}
    (h : d.slot p = .ok (directory, some name)) :
    ∃ before, p.parts = before ++ [name] ∧ checkText p = .ok () ∧
      d.tree.follow (d.start p) (before ++ [['.']]) = .ok directory ∧
      (isDots name = false → d.tree.node? directory = some .directory ∧
        ¬ maxNameOctets < octetCount name) := by
  unfold slot at h
  cases hc : checkText p with
  | error cause => rw [hc] at h; cases h
  | ok _ =>
    rw [hc] at h
    simp only [bind, Except.bind] at h
    cases hf : d.tree.follow (d.start p) (p.parts.dropLast ++ [['.']]) with
    | error cause => rw [hf] at h; cases h
    | ok l =>
      rw [hf] at h
      simp only at h
      cases hg : p.parts.getLast? with
      | none => rw [hg] at h; cases h
      | some last =>
        rw [hg] at h
        simp only at h
        have hp : p.parts = p.parts.dropLast ++ [last] := by
          obtain ⟨before, hb⟩ := List.getLast?_eq_some_iff.1 hg
          rw [hb, List.dropLast_concat]
        split at h
        · next hd =>
          cases h
          exact ⟨_, hp, rfl, hf, fun hn => by rw [hd] at hn; cases hn⟩
        · split at h
          · cases h
          · next hdir =>
            split at h
            · cases h
            · next hlen =>
              cases h
              exact ⟨_, hp, rfl, hf, fun _ => ⟨Decidable.not_not.1 hdir, hlen⟩⟩

end Disk
end StatusBadges
