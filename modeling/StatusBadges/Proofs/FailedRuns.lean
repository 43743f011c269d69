import StatusBadges.Proofs.Failures

/-!
# What a failed run leaves

A run that fails has changed the data file at most (`spares_of_failed_run`). When the record cannot
be saved, missing directories were made and no file is changed. When the README is refused, nothing
happens to it, but the record was saved before and stays, so that the two outputs need not go
together (`failed_run_replaces_data`).
-/

namespace StatusBadges

namespace Disk

/-! ## Files that stay -/

/-- Every path leads where it led, and every file but those at the changed locations is what it was.
No other file is new. -/
structure Spares (changed : Location → Prop) (d d' : Disk) : Prop where
  resolve : ∀ {p l}, d.resolve p = .ok l → d'.resolve p = .ok l
  file_iff : ∀ {l}, ¬ changed l → ∀ content mode,
    d'.tree.node? l = some (.file content mode) ↔ d.tree.node? l = some (.file content mode)

/-- Making directories changes no file. -/
theorem Builds.spares {paths : List Path} {d d' : Disk} (h : Builds paths d d') :
    Spares (fun _ => False) d d' := by
  constructor
  · intro p l hp
    have e : d' = ⟨d'.tree, d.here⟩ := by rw [← h.here_eq]
    rw [e]
    exact resolve_of_grows h.grows hp
  · intro l _ content mode
    by_cases e : d'.tree.node? l = d.tree.node? l
    · rw [e]
    · obtain ⟨hnone, hdir, -⟩ := h.made l e
      rw [hnone, hdir]
      simp

theorem Spares.wrote {d made d' : Disk} (h : Spares (fun _ => False) d made) {text : String}
    {l : Location} (hw : Wrote text l made d') : Spares (· = l) d d' := by
  constructor
  · exact fun hp => hw.resolve (h.resolve hp)
  · intro k hk content mode
    rw [hw.others k hk]
    exact h.file_iff not_false content mode

end Disk

namespace Pipeline

open Session

/-! ## Runs -/

/-- A README that is refused stays. -/
theorem updateReadme_error {d : Disk} {p : Path} {badges : BadgeSet} {failure : Failure}
    (h : (updateReadme p badges d).1 = .error failure) : (updateReadme p badges d).2 = d := by
  unfold updateReadme at h ⊢
  split
  · next hf =>
    rw [if_pos hf] at h
    cases hr : d.readText p with
    | error cause => rfl
    | ok content =>
      rw [hr] at h
      simp only at h ⊢
      cases hw : d.writeText p (Readme.update content badges) with
      | error cause => rfl
      | ok written => rw [hw] at h; cases h
  · rfl

section Run

variable {tools : Toolbox} {c : Config} {s : Session} {failure : Failure}

theorem disk_of_save_error
    (h : (save c.dataPath (record tools c s) (beforeSaving tools c s).disk).1 = .error failure) :
    ((run tools c).run s).2.disk = saved tools c s := by
  unfold saved record beforeSaving at *
  unfold run
  rw [run_bind, run_bind, timestamp_after, run_change_bind, h]
  rfl

theorem disk_of_save_ok
    (h : save c.dataPath (record tools c s) (beforeSaving tools c s).disk =
      (.ok (), saved tools c s)) :
    ((run tools c).run s).2.disk =
      (updateReadme c.readmePath ((generate tools c).run s).1.badges (saved tools c s)).2 := by
  generalize saved tools c s = d at h ⊢
  unfold record beforeSaving at h
  unfold run
  rw [run_bind, run_bind, timestamp_after, run_change_bind, h]
  simp only
  rw [run_change_bind]
  cases (updateReadme c.readmePath ((generate tools c).run s).1.badges d).1 <;> rfl

/-- **A run that fails has changed no file but the data file.** That is as it was when the record
could not be saved. When it is the README that was refused, the data file holds the new record. -/
theorem spares_of_failed_run (hs : s.disk.Settled)
    (h : ((run tools c).run s).1 = .error failure) :
    ((save c.dataPath (record tools c s) (beforeSaving tools c s).disk).1 = .error failure ∧
        Disk.Spares (fun _ => False) (beforeSaving tools c s).disk
          ((run tools c).run s).2.disk) ∨
      ∃ cause l text mode, failure = .storage c.readmePath cause ∧
        ((run tools c).run s).2.disk.resolve c.dataPath = .ok l ∧
        ((run tools c).run s).2.disk.tree.node? l = some (.file (.text text) mode) ∧
        BadgeRecord.decode? text = some (record tools c s) ∧
        Disk.Spares (· = l) (beforeSaving tools c s).disk ((run tools c).run s).2.disk := by
  have hbefore : (beforeSaving tools c s).disk.Settled :=
    settled_after (settled_generate tools c hs) timeCommand
  obtain ⟨made, hbuilds, ⟨refusal, hsave⟩ | ⟨d, hsave, hwrite⟩⟩ :=
    builds_save hbefore c.dataPath (record tools c s)
  · have hfirst := congrArg Prod.fst hsave
    rw [run_of_save_error hfirst] at h
    cases h
    refine Or.inl ⟨hfirst, ?_⟩
    rw [disk_of_save_error hfirst, saved, hsave]
    exact hbuilds.spares
  · have hsaved : saved tools c s = d := by rw [saved, hsave]
    have hupdate := (run_of_save_ok hsave).1 h
    have hdisk : ((run tools c).run s).2.disk = d := by
      rw [disk_of_save_ok (by rw [hsaved, hsave]), hsaved]
      exact updateReadme_error hupdate
    obtain ⟨cause, rfl, -⟩ := updateReadme_eq_error hupdate
    obtain ⟨l, -, hl, hwrote⟩ := Disk.wrote_of_writeText (hbuilds.settled hbefore) hwrite
    obtain ⟨mode, hnode, -⟩ := hwrote.node
    refine Or.inr ⟨cause, l, (record tools c s).encode, mode, rfl, ?_, ?_,
      BadgeRecord.decode?_encode _, ?_⟩
    · rw [hdisk, hl]
    · rw [hdisk, hnode]
    · rw [hdisk]
      exact hbuilds.spares.wrote hwrote

end Run

/-- A project with an empty data file and a README that is no text. -/
def garbledProject : Session where
  disk :=
    { tree :=
        { entries :=
            [(["proj".toList], .directory),
              (["proj".toList, "README.md".toList], .file (.raw [0xff]) 0o644),
              (["proj".toList, "badges".toList], .directory),
              (["proj".toList, "badges".toList, "data.json".toList], .file (.text "") 0o644)]
          distinct := by decide
          rooted := by decide
          named := by decide }
      here := [] }
  issued := []

/-- Its record is saved, and its README is refused. -/
theorem save_garbledProject (r : BadgeRecord) (badges : BadgeSet) :
    ∃ d, save bareConfig.dataPath r garbledProject.disk = (.ok (), d) ∧
      d.node? bareConfig.dataPath = some (.file (.text r.encode) 0o644) ∧
      updateReadme bareConfig.readmePath badges d =
        (.error (.storage bareConfig.readmePath .illFormedText), d) :=
  ⟨_, rfl, rfl, rfl⟩

theorem run_garbledProject :
    ((run noPrograms bareConfig).run garbledProject).1 =
        .error (.storage bareConfig.readmePath .illFormedText) ∧
      ((run noPrograms bareConfig).run garbledProject).2.disk.node? bareConfig.dataPath =
        some (.file (.text (record noPrograms bareConfig garbledProject).encode) 0o644) := by
  obtain ⟨d, hsave, hnode, hupdate⟩ := save_garbledProject
    (record noPrograms bareConfig garbledProject)
    ((generate noPrograms bareConfig).run garbledProject).1.badges
  rw [← disk_beforeSaving_noPrograms bareConfig garbledProject] at hsave
  have hsaved : saved noPrograms bareConfig garbledProject = d := by rw [saved, hsave]
  constructor
  · exact (run_of_save_ok hsave).2 (by rw [hupdate])
  · rw [disk_of_save_ok (by rw [hsaved, hsave]), hsaved, hupdate]
    exact hnode

/-- The run of the garbled project fails at its README. -/
theorem spares_garbledProject :
    garbledProject.disk.Settled ∧ ∃ cause l text mode,
      Failure.storage bareConfig.readmePath .illFormedText =
          .storage bareConfig.readmePath cause ∧
        ((run noPrograms bareConfig).run garbledProject).2.disk.resolve bareConfig.dataPath =
          .ok l ∧
        ((run noPrograms bareConfig).run garbledProject).2.disk.tree.node? l =
          some (.file (.text text) mode) ∧
        BadgeRecord.decode? text = some (record noPrograms bareConfig garbledProject) ∧
        Disk.Spares (· = l) (beforeSaving noPrograms bareConfig garbledProject).disk
          ((run noPrograms bareConfig).run garbledProject).2.disk := by
  have hs : garbledProject.disk.Settled := Disk.settled_of_node? rfl
  refine ⟨hs, (spares_of_failed_run hs run_garbledProject.1).resolve_left ?_⟩
  rintro ⟨hfailed, -⟩
  obtain ⟨d, hsave, -⟩ := save_garbledProject (record noPrograms bareConfig garbledProject)
    ((generate noPrograms bareConfig).run garbledProject).1.badges
  rw [disk_beforeSaving_noPrograms] at hfailed
  rw [hsave] at hfailed
  cases hfailed

/-- A run that fails at its README has replaced the data file. -/
theorem failed_run_replaces_data :
    (∃ failure, ((run noPrograms bareConfig).run garbledProject).1 = .error failure) ∧
      ((run noPrograms bareConfig).run garbledProject).2.disk.node? bareConfig.dataPath ≠
        (beforeSaving noPrograms bareConfig garbledProject).disk.node? bareConfig.dataPath := by
  refine ⟨⟨_, run_garbledProject.1⟩, ?_⟩
  rw [run_garbledProject.2, disk_beforeSaving_noPrograms]
  intro h
  have hbefore : garbledProject.disk.node? bareConfig.dataPath =
      some (.file (.text "") 0o644) := rfl
  rw [hbefore] at h
  simp only [Option.some.injEq, Node.file.injEq, Content.text.injEq, and_true] at h
  -- No record is written as the empty text.
  have hdecode := BadgeRecord.decode?_encode (record noPrograms bareConfig garbledProject)
  rw [h] at hdecode
  cases hdecode

end Pipeline
end StatusBadges
