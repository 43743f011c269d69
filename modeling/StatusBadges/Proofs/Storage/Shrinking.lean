import StatusBadges.Proofs.Storage.Linkless
import StatusBadges.Proofs.Storage.Removal

/-!
# Disks that lost files

Without links a tree has grown out of every tree that it shrinks to (`Shrinks.grows`). When only
files went, every directory is where it was, so that paths lead where they led before
(`Trims.leads`).
-/

namespace StatusBadges

namespace Tree.Shrinks

theorem linkless {t u : Tree} (h : Shrinks t u) (ht : t.Linkless) : u.Linkless :=
  fun l target hl => ht l target (h l _ hl)

/-- Without links a tree has grown out of every tree that it shrinks to. -/
theorem grows {t u : Tree} (h : Shrinks t u) (ht : t.Linkless) : Grows u t where
  directory := h _ _
  file := fun hf => ⟨_, _, h _ _ hf⟩
  link := ⟨fun hl => absurd hl (ht _ _), h _ _⟩

end Tree.Shrinks

namespace Disk

/-- A disk lost some files, and no directory. -/
structure Trims (d d' : Disk) : Prop where
  here_eq : d'.here = d.here
  shrinks : d.tree.Shrinks d'.tree
  directories : ∀ {l}, d.tree.node? l = some .directory → d'.tree.node? l = some .directory

namespace Trims

theorem refl (d : Disk) : Trims d d := ⟨rfl, .refl _, id⟩

theorem trans {d d' d'' : Disk} (h : Trims d d') (h' : Trims d' d'') : Trims d d'' :=
  ⟨h'.here_eq.trans h.here_eq, h.shrinks.trans h'.shrinks,
    fun hl => h'.directories (h.directories hl)⟩

theorem settled {d d' : Disk} (h : Trims d d') (hs : d.Settled) : d'.Settled := by
  unfold Settled
  rw [h.here_eq]
  exact Tree.anchor_of_directories h.directories hs

/-- **Without links a path led where it leads** before files went. -/
theorem leads {d d' : Disk} (h : Trims d d') (ht : d.tree.Linkless) {p : Path} {l : Location}
    (hp : d'.tree.Leads d'.here p l) : d.tree.Leads d.here p l := by
  rw [h.here_eq] at hp
  exact Tree.leads_of_grows (h.shrinks.grows ht) hp

theorem resolve {d d' : Disk} (h : Trims d d') (ht : d.tree.Linkless) {p : Path} {l : Location}
    (hp : d'.resolve p = .ok l) : d.resolve p = .ok l := by
  have e : d = ⟨d.tree, d'.here⟩ := by rw [h.here_eq]
  rw [e]
  exact resolve_of_grows (h.shrinks.grows ht) hp

end Trims

theorem Deletes.trims {allowed : Location → Node → Prop} {d : Disk} {t : Tree}
    (h : Deletes allowed d t) (hs : d.Settled) (ha : ∀ l n, allowed l n → n ≠ .directory) :
    Trims d (d.withTree t) := by
  have hdir {l : Location} (hl : d.tree.node? l = some .directory) :
      t.node? l = some .directory := by
    cases ht : t.node? l with
    | none => exact absurd rfl (ha _ _ (h.allowed hl ht))
    | some n => rw [← hl, h.shrinks l n ht]
  exact ⟨Tree.anchor_of_directories hdir hs, h.shrinks, hdir⟩

theorem trims_of_edits {allowed : Disk → Location → Node → Prop}
    (ha : ∀ d l n, allowed d l n → n ≠ .directory) {d d' : Disk}
    (h : Edits (fun d t => Deletes (allowed d) d t) d d') (hs : d.Settled) : Trims d d' := by
  induction h with
  | refl d => exact .refl d
  | step t ht _ ih =>
    have htrims := ht.trims hs (ha _)
    exact htrims.trans (ih (htrims.settled hs))

end Disk
end StatusBadges
