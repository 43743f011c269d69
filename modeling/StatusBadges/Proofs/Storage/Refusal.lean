import StatusBadges.Proofs.Storage.Writing

/-!
# Refusals do not depend on texts

Whether a file can be written does not depend on the text that is written, and once it is written,
no lookup depends on it either: trees that are alike but for the texts of files lead every path to
the same place (`Alike.resolve_eq`), and what cannot be read or written in one cannot in the other,
for the same cause.
-/

namespace StatusBadges

namespace Tree

/-- Two trees that differ in the texts of files at most. -/
def Alike (t u : Tree) : Prop :=
  ∀ l, u.node? l = t.node? l ∨ ∃ text text' mode,
    t.node? l = some (.file (.text text) mode) ∧ u.node? l = some (.file (.text text') mode)

namespace Alike

variable {t u : Tree} (h : Alike t u)

include h

theorem symm : Alike u t := by
  intro l
  rcases h l with e | ⟨text, text', mode, ht, hu⟩
  · exact Or.inl e.symm
  · exact Or.inr ⟨text', text, mode, hu, ht⟩

theorem directory_iff (l : Location) :
    u.node? l = some .directory ↔ t.node? l = some .directory := by
  rcases h l with e | ⟨text, text', mode, ht, hu⟩
  · rw [e]
  · rw [ht, hu]
    simp

theorem walk_eq (l : Location) (names : List Name) : u.walk l names = t.walk l names := by
  induction names generalizing l with
  | nil => rfl
  | cons s rest ih =>
    unfold walk
    rcases h (l ++ [s]) with e | ⟨text, text', mode, ht, hu⟩
    · simp only [e, ih, h.directory_iff l]
    · simp only [ht, hu, ih]

theorem followWithin_eq (budget : Nat) (l : Location) (names : List Name) :
    u.followWithin budget l names = t.followWithin budget l names := by
  induction budget generalizing l names with
  | zero => simp only [followWithin, h.walk_eq]
  | succ n ih => simp only [followWithin, h.walk_eq, ih]

theorem anchor_eq (l : Location) : u.anchor l = t.anchor l := by
  fun_induction t.anchor l with
  | case1 l hd => rw [anchor_eq_self ((h.directory_iff l).2 hd)]
  | case2 l hd ih => rw [anchor, dif_neg (mt (h.directory_iff l).1 hd), ih]

theorem found?_cases (l : Location) :
    u.found? l = t.found? l ∨ ∃ text text' mode,
      t.found? l = some (.file (.text text) mode) ∧
        u.found? l = some (.file (.text text') mode) := by
  unfold found?
  split
  · exact Or.inl rfl
  · exact h l

end Alike

theorem alike_put (t : Tree) (l : Location) (text text' : String) (mode : Nat) :
    Alike (t.put l (.file (.text text) mode)) (t.put l (.file (.text text') mode)) := by
  intro k
  by_cases ha : t.accepts l = true
  · rw [node?_put ha, node?_put ha]
    split
    · exact Or.inr ⟨text, text', mode, rfl, rfl⟩
    · exact Or.inl rfl
  · rw [put, dif_neg ha, put, dif_neg ha]
    exact Or.inl rfl

end Tree

namespace Disk

/-- Two disks that differ in the texts of files at most. -/
structure Alike (d d' : Disk) : Prop where
  here_eq : d'.here = d.here
  tree : Tree.Alike d.tree d'.tree

namespace Alike

variable {d d' : Disk} (h : Alike d d') (p : Path)

include h

theorem symm : Alike d' d := ⟨h.here_eq.symm, h.tree.symm⟩

theorem resolve_eq : d'.resolve p = d.resolve p := by
  unfold resolve start Tree.follow
  rw [h.here_eq]
  simp only [h.tree.followWithin_eq]

theorem isFile_eq : d'.isFile p = d.isFile p := by
  unfold isFile node?
  rw [h.resolve_eq]
  cases d.resolve p with
  | error cause => rfl
  | ok l =>
    simp only
    rcases h.tree.found?_cases l with e | ⟨text, text', mode, ht, hu⟩
    · rw [e]
    · rw [ht, hu]
      rfl

theorem readText_error {p : Path} {cause : Cause} (hr : d.readText p = .error cause) :
    d'.readText p = .error cause := by
  unfold readText at hr ⊢
  rw [h.resolve_eq]
  cases hp : d.resolve p with
  | error cause' =>
    rw [hp] at hr
    exact hr
  | ok l =>
    rw [hp] at hr
    simp only [bind, Except.bind] at hr ⊢
    rcases h.tree.found?_cases l with e | ⟨text, text', mode, ht, hu⟩
    · rwa [e]
    · rw [ht] at hr
      rw [hu]
      simp only at hr ⊢
      split at hr
      · cases hr
      · next hmode => rwa [if_neg hmode]

end Alike

/-- What is found where a file is. -/
theorem exists_of_isFile {d : Disk} {p : Path} (h : d.isFile p = true) :
    ∃ l content mode, d.resolve p = .ok l ∧ d.tree.found? l = some (.file content mode) := by
  unfold isFile node? at h
  cases hr : d.resolve p with
  | error cause => rw [hr] at h; cases h
  | ok l =>
    rw [hr] at h
    simp only at h
    cases hf : d.tree.found? l with
    | none => rw [hf] at h; cases h
    | some n =>
      rw [hf] at h
      cases n with
      | file content mode => exact ⟨l, content, mode, rfl, hf⟩
      | directory => cases h
      | link target => cases h

/-! ## Writing -/

theorem writeText_error {d : Disk} {p : Path} {text : String} {cause : Cause}
    (h : d.writeText p text = .error cause) (text' : String) :
    d.writeText p text' = .error cause := by
  unfold writeText at h ⊢
  cases hr : d.resolve p with
  | error cause' =>
    rw [hr] at h
    exact h
  | ok l =>
    rw [hr] at h
    simp only at h ⊢
    cases hf : d.tree.found? l with
    | none =>
      rw [hf] at h
      simp only at h ⊢
      split at h
      · cases h
      · next ha => rwa [if_neg ha]
    | some n =>
      rw [hf] at h
      cases n with
      | directory => exact h
      | link target => exact h
      | file content mode =>
        simp only at h ⊢
        split at h
        · cases h
        · next hmode => rwa [if_neg hmode]

theorem alike_withTree {d : Disk} {t u : Tree} (h : Tree.Alike t u) :
    Alike (d.withTree t) (d.withTree u) :=
  ⟨h.anchor_eq d.here, h⟩

/-- **Disks on which different texts were written at a path** are alike. -/
theorem exists_alike_of_writeText {d written : Disk} {p : Path} {text : String}
    (h : d.writeText p text = .ok written) (text' : String) :
    ∃ written', d.writeText p text' = .ok written' ∧ Alike written written' := by
  unfold writeText at h ⊢
  cases hr : d.resolve p with
  | error cause => rw [hr] at h; cases h
  | ok l =>
    rw [hr] at h
    simp only at h ⊢
    cases hf : d.tree.found? l with
    | none =>
      rw [hf] at h
      simp only at h ⊢
      split at h
      · next ha =>
        cases h
        exact ⟨_, if_pos ha, alike_withTree (Tree.alike_put d.tree l text text' _)⟩
      · cases h
    | some n =>
      rw [hf] at h
      cases n with
      | directory => cases h
      | link target => cases h
      | file content mode =>
        simp only at h ⊢
        split at h
        · next hmode =>
          cases h
          exact ⟨_, if_pos hmode, alike_withTree (Tree.alike_put d.tree l text text' _)⟩
        · cases h

theorem Alike.writeText_error {d d' : Disk} (h : Alike d d') {p : Path} (hp : d.isFile p = true)
    {text : String} {cause : Cause} (hw : d.writeText p text = .error cause) (text' : String) :
    d'.writeText p text' = .error cause := by
  obtain ⟨l, content, mode, hr, hf⟩ := exists_of_isFile hp
  unfold writeText at hw ⊢
  rw [hr] at hw
  rw [h.resolve_eq, hr]
  simp only [hf] at hw ⊢
  split at hw
  · cases hw
  · next hmode =>
    rcases h.tree.found?_cases l with e | ⟨t, t', mode', ht, hu⟩
    · rw [e, hf]
      simp only
      rwa [if_neg hmode]
    · rw [hf] at ht
      cases ht
      rw [hu]
      simp only
      rwa [if_neg hmode]

end Disk
end StatusBadges
