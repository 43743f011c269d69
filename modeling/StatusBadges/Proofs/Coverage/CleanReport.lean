import StatusBadges.Proofs.Coverage.Cleaning

/-!
# What a clean-up reports

A clean-up counts the files that it takes outside the report, each once and as what it is first
looked for: a counter, a trace file or a compiled test (`Tally`). It tells that the report went when
its directory did (`clean_reports_exactly`). After a clean-up there is nothing left to clean up.
-/

namespace StatusBadges.Coverage

open Session

/-- The files that a clean-up takes outside the report, by what they are counted as. -/
structure Tally (c : Config) (d d' : Disk) (counters traces compiledTests : List Location) :
    Prop where
  nodup : (counters ++ traces ++ compiledTests).Nodup
  mem_iff : ∀ l, l ∈ counters ++ traces ++ compiledTests ↔
    d.tree.Loses d'.tree l ∧ ¬ InReport c d l
  mem_counters : ∀ l, l ∈ counters ↔ IsCounter c d l ∧ ¬ InReport c d l
  mem_traces : ∀ l, l ∈ traces ↔ IsTrace c d l ∧ ¬ (InReport c d l ∨ IsCounter c d l)
  mem_compiledTests : ∀ l, l ∈ compiledTests ↔
    Swept c d l ∧ ¬ ((InReport c d l ∨ IsCounter c d l) ∨ IsTrace c d l)

section Clean

variable {c : Config} (hc : c.Descends) {s : Session} (hs : s.disk.Settled)
  (ht : s.disk.tree.Linkless)
include hc hs ht

theorem exists_tally_clean :
    ∃ counters traces compiledTests, Tally c s.disk ((clean c).run s).2.disk counters traces
      compiledTests ∧ ((clean c).run s).1.counters = counters.length ∧
        ((clean c).run s).1.traces = traces.length ∧
        ((clean c).run s).1.compiledTests = compiledTests.length := by
  obtain ⟨d₁, d₂, d₃, h⟩ := exists_phases_clean hc hs ht
  have hcounters := h.report.trans h.counters.strips (lasting_isCounter hc) ht
  have htraces := hcounters.trans h.traces.strips (lasting_isTrace hc) ht
  obtain ⟨counters, hnodup, hlost, hmem, hcount⟩ :=
    h.report.exists_lost h.counters (lasting_isCounter hc) ht
  obtain ⟨traces, hnodup', hlost', hmem', hcount'⟩ :=
    hcounters.exists_lost h.traces (lasting_isTrace hc) ht
  obtain ⟨tests, hnodup'', hlost'', hmem'', hcount''⟩ :=
    htraces.exists_lost h.compiledTests (lasting_swept hc) ht
  have hshrinks := h.counters.strips.fades.shrinks
  have hshrinks' := h.traces.strips.fades.shrinks
  obtain ⟨hboth, hlostBoth⟩ :=
    Disk.nodup_append_of_loses hshrinks hshrinks' hnodup hnodup' hlost hlost'
  obtain ⟨hall, hlostAll⟩ := Disk.nodup_append_of_loses (hshrinks.trans hshrinks')
    h.compiledTests.strips.fades.shrinks hboth hnodup'' hlostBoth hlost''
  exact ⟨counters, traces, tests, ⟨hall, fun l => (hlostAll l).trans h.report.loses_later_iff,
    hmem, hmem', hmem''⟩, hcount, hcount', hcount''⟩

/-- The report is told to have gone exactly when its directory was there and is gone. -/
theorem reported_clean_iff :
    ((clean c).run s).1.htmlReport = true ↔ ∃ r, s.disk.resolve c.htmlPath = .ok r ∧
      s.disk.tree.node? r = some .directory ∧
        ((clean c).run s).2.disk.tree.node? r = none := by
  obtain ⟨d₁, d₂, d₃, h⟩ := exists_phases_clean hc hs ht
  have hstrips := h.strips hc ht
  rw [h.reported]
  constructor
  · rintro ⟨hnamed, r, hr, hdir⟩
    exact ⟨r, hr, hdir, hstrips.absent (.report ⟨r, hr, hdir, List.prefix_rfl, fun _ => hnamed⟩)⟩
  · rintro ⟨r, hr, hdir, hnone⟩
    have hno {goal : Disk → Location → Prop} (hgoal : Disk.Lasting goal) :
        ¬ goal s.disk r := by
      intro h
      obtain ⟨content, mode, hf⟩ := hgoal.file h
      rw [hdir] at hf
      cases hf
    refine ⟨?_, r, hr, hdir⟩
    cases (hstrips.node?_eq_none_iff hdir).1 hnone with
    | report h =>
      obtain ⟨r', hr', -, -, hnamed⟩ := h
      rw [hr] at hr'
      exact hnamed (Except.ok.inj hr')
    | counter h => exact absurd h (hno (lasting_isCounter hc))
    | trace h => exact absurd h (hno (lasting_isTrace hc))
    | compiledTest h => exact absurd h (hno (lasting_swept hc))

/-- Nothing that is left is cleared another time. -/
theorem node?_eq_none_of_cleared {l : Location}
    (hl : Cleared c ((clean c).run s).2.disk l) :
    ((clean c).run s).2.disk.tree.node? l = none := by
  have hstrips := strips_clean hc hs ht
  have hgone {goal : Disk → Location → Prop} (hgoal : Disk.Lasting goal)
      (hcleared : goal s.disk l → Cleared c s.disk l)
      (h : goal ((clean c).run s).2.disk l) : ((clean c).run s).2.disk.tree.node? l = none :=
    hstrips.absent (hcleared ((hgoal.iff hstrips.fades ht).1 h).1)
  cases hl with
  | report h =>
    obtain ⟨r, hr, hdir, hpre, hnamed⟩ := h
    have hr' := (hstrips.fades.resolve_iff ht (hc.notMem_resolve hc.htmlDir) hdir).1 hr
    exact hstrips.absent (.report ⟨r, hr', hstrips.fades.shrinks _ _ hdir, hpre, hnamed⟩)
  | counter h => exact hgone (lasting_isCounter hc) .counter h
  | trace h => exact hgone (lasting_isTrace hc) .trace h
  | compiledTest h => exact hgone (lasting_swept hc) .compiledTest h

/-- **What a clean-up reports is exact**, and there is nothing for another one. -/
theorem clean_reports_exactly :
    (((clean c).run s).1.htmlReport = true ↔ ∃ r, s.disk.resolve c.htmlPath = .ok r ∧
      s.disk.tree.node? r = some .directory ∧
        ((clean c).run s).2.disk.tree.node? r = none) ∧
    (∃ counters traces compiledTests, Tally c s.disk ((clean c).run s).2.disk counters traces
      compiledTests ∧ ((clean c).run s).1.counters = counters.length ∧
        ((clean c).run s).1.traces = traces.length ∧
        ((clean c).run s).1.compiledTests = compiledTests.length) ∧
    ((clean c).run ((clean c).run s).2).1 = ⟨0, 0, 0, false⟩ ∧
    ∀ l, ((clean c).run ((clean c).run s).2).2.disk.tree.node? l =
      ((clean c).run s).2.disk.tree.node? l := by
  have hfades := (strips_clean hc hs ht).fades
  have hagain := strips_clean hc hfades.settled (hfades.linkless ht)
  have hsame (l : Location) : ((clean c).run ((clean c).run s).2).2.disk.tree.node? l =
      ((clean c).run s).2.disk.tree.node? l := by
    by_cases hl : Cleared c ((clean c).run s).2.disk l
    · rw [hagain.absent hl, node?_eq_none_of_cleared hc hs ht hl]
    · exact hagain.stays hl
  refine ⟨reported_clean_iff hc hs ht, exists_tally_clean hc hs ht, ?_, hsame⟩
  have hnone (l : Location) : ¬ ((clean c).run s).2.disk.tree.Loses
      ((clean c).run ((clean c).run s).2).2.disk.tree l := by
    rintro ⟨⟨content, mode, hf⟩, hno⟩
    exact hno content mode ((hsame l).trans hf)
  obtain ⟨counters, traces, tests, htally, hcounters, htraces, htests⟩ :=
    exists_tally_clean hc hfades.settled (hfades.linkless ht)
  have hempty : counters ++ traces ++ tests = [] :=
    List.eq_nil_iff_forall_not_mem.2 fun l hl => hnone l ((htally.mem_iff l).1 hl).1
  obtain ⟨rfl, rfl, rfl⟩ : counters = [] ∧ traces = [] ∧ tests = [] := by simpa using hempty
  have hreport : ((clean c).run ((clean c).run s).2).1.htmlReport = false := by
    rw [← Bool.not_eq_true, reported_clean_iff hc hfades.settled (hfades.linkless ht)]
    rintro ⟨r, -, hdir, hgone⟩
    rw [hsame r, hdir] at hgone
    cases hgone
  cases hanswer : ((clean c).run ((clean c).run s).2).1 with
  | mk a b e f =>
    rw [hanswer] at hcounters htraces htests hreport
    rw [CleanReport.mk.injEq]
    exact ⟨hcounters, htraces, htests, hreport⟩

end Clean

/-- Where all directories are the root or lie in it, a counter that may be executed is counted as a
counter, and one in the report is not counted. -/
theorem clean_reports_nestedProject :
    nestedConfig.Descends ∧ nestedProject.disk.Settled ∧ nestedProject.disk.tree.Linkless ∧
      ((clean nestedConfig).run nestedProject).1 = ⟨2, 1, 1, true⟩ ∧
      ((clean nestedConfig).run ((clean nestedConfig).run nestedProject).2).1 =
        ⟨0, 0, 0, false⟩ := by
  have hs : nestedProject.disk.Settled := Disk.settled_of_node? rfl
  exact ⟨descends_nestedConfig, hs, linkless_nestedProject, by decide +kernel,
    (clean_reports_exactly descends_nestedConfig hs linkless_nestedProject).2.2.1⟩

end StatusBadges.Coverage
