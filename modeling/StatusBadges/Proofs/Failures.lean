import StatusBadges.Proofs.Pipeline
import StatusBadges.Proofs.Storage.Refusal

/-!
# When a run fails

What a run cannot find out about a project shows on the badges. It fails only when its results
cannot be kept, and whether they can depends on nothing but the files as they stand when it begins
to save them (`Refuses`, `run_eq_error_iff`): not on the badges, the time or what a program said,
since refusals do not depend on the texts that are written.
-/

namespace StatusBadges.Pipeline

open Session

/-! ## What can be refused -/

/-- The files after the directories above a path were made, where the path names any. -/
inductive Prepared (p : Path) (d : Disk) : Disk → Prop
  | bare (h : ∀ above, p.parent? = some above → above.chars = []) : Prepared p d d
  | made {above : Path} {made : Disk} (parent : p.parent? = some above) (named : above.chars ≠ [])
      (h : d.makeDirectories above = (.ok (), made)) : Prepared p d made

/-- The files with some text in the data file. -/
def Keeps (c : Config) (d saved : Disk) : Prop :=
  ∃ made text, Prepared c.dataPath d made ∧ made.writeText c.dataPath text = .ok saved

/-- On these files a run cannot keep its results, because an operation on a path is refused for a
cause. -/
inductive Refuses (c : Config) (d : Disk) : Path → Cause → Prop
  /-- The directory of the data file cannot be made. -/
  | directory {above : Path} {cause : Cause} (parent : c.dataPath.parent? = some above)
      (named : above.chars ≠ []) (refused : (d.makeDirectories above).1 = .error cause) :
      Refuses c d above cause
  /-- No text can be written to the data file. -/
  | data {made : Disk} {cause : Cause} (prepared : Prepared c.dataPath d made)
      (refused : ∀ text, made.writeText c.dataPath text = .error cause) :
      Refuses c d c.dataPath cause
  /-- Behind the data file, the README is a file that cannot be read as text. -/
  | reading {saved : Disk} {cause : Cause} (keeps : Keeps c d saved)
      (file : saved.isFile c.readmePath = true)
      (refused : saved.readText c.readmePath = .error cause) : Refuses c d c.readmePath cause
  /-- Behind the data file, the README is a text to which none can be written. -/
  | writing {saved : Disk} {content : String} {cause : Cause} (keeps : Keeps c d saved)
      (file : saved.isFile c.readmePath = true)
      (readable : saved.readText c.readmePath = .ok content)
      (refused : ∀ text, saved.writeText c.readmePath text = .error cause) :
      Refuses c d c.readmePath cause

/-! ## Saving -/

section Saving

variable {p : Path} {d : Disk} {r : BadgeRecord}

theorem prepared_or_refused (p : Path) (d : Disk) :
    (∃ made, Prepared p d made) ∨ ∃ above cause, p.parent? = some above ∧ above.chars ≠ [] ∧
      (d.makeDirectories above).1 = .error cause := by
  cases hp : p.parent? with
  | none =>
    refine Or.inl ⟨d, .bare fun above h => ?_⟩
    rw [hp] at h
    cases h
  | some above =>
    by_cases hempty : above.chars = []
    · refine Or.inl ⟨d, .bare fun other h => ?_⟩
      rw [hp] at h
      cases h
      exact hempty
    · cases hm : d.makeDirectories above with
      | mk result made =>
        cases result with
        | ok _ => exact Or.inl ⟨made, .made hp hempty hm⟩
        | error cause => exact Or.inr ⟨above, cause, rfl, hempty, by rw [hm]⟩

theorem save_of_refused {above : Path} {cause : Cause} (parent : p.parent? = some above)
    (named : above.chars ≠ []) (refused : (d.makeDirectories above).1 = .error cause) :
    (save p r d).1 = .error (.storage above cause) := by
  unfold save
  cases hm : d.makeDirectories above with
  | mk result made =>
    rw [hm] at refused
    subst refused
    simp only [parent, if_neg named, hm]

theorem save_of_unwritable {made : Disk} {cause : Cause} (h : Prepared p d made)
    (refused : made.writeText p r.encode = .error cause) :
    (save p r d).1 = .error (.storage p cause) := by
  unfold save
  cases h with
  | bare h =>
    cases hp : p.parent? with
    | none => simp only [refused]
    | some above => simp only [if_pos (h above hp), refused]
  | made parent named h => simp only [parent, if_neg named, h, refused]

theorem save_of_written {made saved : Disk} (h : Prepared p d made)
    (written : made.writeText p r.encode = .ok saved) : save p r d = (.ok (), saved) := by
  unfold save
  cases h with
  | bare h =>
    cases hp : p.parent? with
    | none => simp only [written]
    | some above => simp only [if_pos (h above hp), written]
  | made parent named h => simp only [parent, if_neg named, h, written]

/-- A record can be saved where any text can be kept, and the files are alike then. -/
theorem Keeps.exists_alike {c : Config} {saved : Disk} (h : Keeps c d saved) (r : BadgeRecord) :
    ∃ saved', save c.dataPath r d = (.ok (), saved') ∧ Disk.Alike saved saved' := by
  obtain ⟨made, text, prepared, written⟩ := h
  obtain ⟨saved', hsaved', halike⟩ := Disk.exists_alike_of_writeText written r.encode
  exact ⟨saved', save_of_written prepared hsaved', halike⟩

end Saving

/-! ## Updating the README -/

section Updating

variable {p : Path} {d : Disk} {badges : BadgeSet} {cause : Cause}

theorem updateReadme_of_unreadable (file : d.isFile p = true)
    (refused : d.readText p = .error cause) :
    (updateReadme p badges d).1 = .error (.storage p cause) := by
  rw [updateReadme, if_pos file, refused]

theorem updateReadme_of_unwritable {content : String} (file : d.isFile p = true)
    (readable : d.readText p = .ok content)
    (refused : ∀ text, d.writeText p text = .error cause) :
    (updateReadme p badges d).1 = .error (.storage p cause) := by
  rw [updateReadme, if_pos file, readable]
  simp only [refused]

/-- What fails an update of the README. -/
theorem updateReadme_eq_error {failure : Failure}
    (h : (updateReadme p badges d).1 = .error failure) :
    ∃ cause, failure = .storage p cause ∧ d.isFile p = true ∧
      (d.readText p = .error cause ∨
        ∃ content, d.readText p = .ok content ∧ ∀ text, d.writeText p text = .error cause) := by
  unfold updateReadme at h
  by_cases hf : d.isFile p = true
  · rw [if_pos hf] at h
    cases hr : d.readText p with
    | error cause =>
      rw [hr] at h
      cases h
      exact ⟨cause, rfl, hf, Or.inl rfl⟩
    | ok content =>
      rw [hr] at h
      simp only at h
      cases hw : d.writeText p (Readme.update content badges) with
      | error cause =>
        rw [hw] at h
        cases h
        exact ⟨cause, rfl, hf, Or.inr ⟨content, rfl, Disk.writeText_error hw⟩⟩
      | ok written =>
        rw [hw] at h
        cases h
  · rw [if_neg hf] at h
    cases h

end Updating

/-! ## A whole run -/

section Run

variable {tools : Toolbox} {c : Config} {s : Session} {failure : Failure}

theorem run_of_save_error
    (h : (save c.dataPath (record tools c s) (beforeSaving tools c s).disk).1 = .error failure) :
    ((run tools c).run s).1 = .error failure := by
  unfold record beforeSaving at h
  unfold run
  rw [run_bind, run_bind, timestamp_after, run_change_bind, h]
  rfl

theorem run_of_save_ok {d : Disk}
    (h : save c.dataPath (record tools c s) (beforeSaving tools c s).disk = (.ok (), d)) :
    ((run tools c).run s).1 = .error failure ↔
      (updateReadme c.readmePath ((generate tools c).run s).1.badges d).1 = .error failure := by
  cases hupdate : updateReadme c.readmePath ((generate tools c).run s).1.badges d with
  | mk result d' =>
    cases result with
    | ok updated =>
      rw [run_of_ok h hupdate]
      simp
    | error cause =>
      unfold record beforeSaving at h
      unfold run
      rw [run_bind, run_bind, timestamp_after, run_change_bind, h]
      simp only
      rw [run_change_bind, hupdate]
      constructor
      · intro e
        cases e
        rfl
      · intro e
        cases e
        rfl

/-- **A run fails exactly when its results cannot be kept** on the files as they stand when it
begins to save them. The failure is that of the file operation that was refused. -/
theorem run_eq_error_iff (tools : Toolbox) (c : Config) (s : Session) (failure : Failure) :
    ((run tools c).run s).1 = .error failure ↔
      ∃ p cause, failure = .storage p cause ∧ Refuses c (beforeSaving tools c s).disk p cause := by
  constructor
  · intro h
    rcases prepared_or_refused c.dataPath (beforeSaving tools c s).disk with
      ⟨made, hmade⟩ | ⟨above, cause, parent, named, refused⟩
    · cases hw : made.writeText c.dataPath (record tools c s).encode with
      | error cause =>
        rw [run_of_save_error (save_of_unwritable hmade hw)] at h
        cases h
        exact ⟨_, cause, rfl, .data hmade (Disk.writeText_error hw)⟩
      | ok saved =>
        obtain ⟨cause, rfl, file, hread | ⟨content, hread, hwrite⟩⟩ :=
          updateReadme_eq_error ((run_of_save_ok (save_of_written hmade hw)).1 h)
        · exact ⟨_, cause, rfl, .reading ⟨made, _, hmade, hw⟩ file hread⟩
        · exact ⟨_, cause, rfl, .writing ⟨made, _, hmade, hw⟩ file hread hwrite⟩
    · rw [run_of_save_error (save_of_refused parent named refused)] at h
      cases h
      exact ⟨above, cause, rfl, .directory parent named refused⟩
  · rintro ⟨p, cause, rfl, h⟩
    cases h with
    | directory parent named refused =>
      exact run_of_save_error (save_of_refused parent named refused)
    | data prepared refused => exact run_of_save_error (save_of_unwritable prepared (refused _))
    | reading keeps file refused =>
      obtain ⟨saved', hsave, halike⟩ := keeps.exists_alike (record tools c s)
      have hfile : saved'.isFile c.readmePath = true := by rw [halike.isFile_eq, file]
      have hrefused := halike.readText_error refused
      exact (run_of_save_ok hsave).2 (updateReadme_of_unreadable hfile hrefused)
    | writing keeps file readable refused =>
      obtain ⟨saved', hsave, halike⟩ := keeps.exists_alike (record tools c s)
      have hfile : saved'.isFile c.readmePath = true := by rw [halike.isFile_eq, file]
      obtain ⟨content', hread⟩ : ∃ content', saved'.readText c.readmePath = .ok content' := by
        cases hread : saved'.readText c.readmePath with
        | ok content' => exact ⟨content', rfl⟩
        | error cause' =>
          rw [halike.symm.readText_error hread] at readable
          cases readable
      refine (run_of_save_ok hsave).2 (updateReadme_of_unwritable hfile hread fun text => ?_)
      exact halike.writeText_error file (refused "") text

end Run

end StatusBadges.Pipeline
