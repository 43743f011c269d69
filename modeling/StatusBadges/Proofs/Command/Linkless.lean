import StatusBadges.Proofs.Command.History
import StatusBadges.Proofs.Storage.Linkless

/-!
# Runs without links

When no command makes a symbolic link and no change of the program does, a run on a disk without
links goes through disks without links only (`History.linkless`).
-/

namespace StatusBadges

/-- The programs make no link where there is none. -/
def Toolbox.Linkless (tools : Toolbox) : Prop :=
  ∀ issued d command, d.tree.Linkless → ∀ t ∈ (tools.run issued d command).2, t.Linkless

theorem Disk.linkless_through {d : Disk} (hd : d.tree.Linkless) {trees : List Tree}
    (h : ∀ t ∈ trees, t.Linkless) : (d.through trees).tree.Linkless := by
  induction trees generalizing d with
  | nil => exact hd
  | cons t trees ih =>
    obtain ⟨ht, hmore⟩ := List.forall_mem_cons.1 h
    exact ih (d := d.withTree t) ht hmore

namespace Session

/-- While the program makes no link, there is none at any of its changes. -/
theorem History.linkless {tools : Toolbox} (htools : tools.Linkless) {s s' : Session}
    {events : List Event} (h : History tools s events s') (hs : s.disk.tree.Linkless)
    (he : ∀ d t, .change d t ∈ events → d.tree.Linkless → t.Linkless) :
    s'.disk.tree.Linkless ∧ ∀ d t, .change d t ∈ events → d.tree.Linkless := by
  induction h with
  | nil s => exact ⟨hs, fun d t hmem => by cases hmem⟩
  | @change s s' events t _ ih =>
    have ht := he s.disk t List.mem_cons_self hs
    obtain ⟨hlast, hrest⟩ := ih ht fun d t hmem => he d t (List.mem_cons_of_mem _ hmem)
    refine ⟨hlast, fun d t hmem => ?_⟩
    rcases List.mem_cons.1 hmem with e | hmem
    · cases e
      exact hs
    · exact hrest d t hmem
  | @call s s' events command _ ih =>
    have hafter : (s.after tools command).disk.tree.Linkless :=
      Disk.linkless_through hs (htools s.issued s.disk command hs)
    obtain ⟨hlast, hrest⟩ := ih hafter fun d t hmem => he d t (List.mem_cons_of_mem _ hmem)
    refine ⟨hlast, fun d t hmem => ?_⟩
    rcases List.mem_cons.1 hmem with e | hmem
    · cases e
    · exact hrest d t hmem

end Session

end StatusBadges
