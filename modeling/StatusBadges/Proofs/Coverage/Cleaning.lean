import StatusBadges.Proofs.Config
import StatusBadges.Proofs.Coverage.Tidiness

/-!
# What a clean-up takes

A clean-up removes the report, the counters, the trace files and the compiled tests, one kind after
the other. Their directories may lie in one another or coincide. Without links and double dots each
phase takes exactly what it looks for and what the phases before it left (`exists_phases_clean`), so
that a clean-up takes from the first disk exactly what is `Cleared`, and nothing else changes
(`clean_clears_exactly`). A file can only be removed by a path that is short enough to be looked
up: one whose path is too long stays (`clean_leaves_trace`).
-/

namespace StatusBadges.Coverage

open Session

/-! ## What is looked for -/

/-- A location in the report directory or below it. The directory itself counts when its path ends
with a name. -/
def InReport (c : Config) (d : Disk) (l : Location) : Prop :=
  ∃ r, d.resolve c.htmlPath = .ok r ∧ d.tree.node? r = some .directory ∧ r <+: l ∧
    (l = r → c.htmlPath.Named)

/-- A counter file below the root or the compiler cache. -/
def IsCounter (c : Config) (d : Disk) (l : Location) : Prop :=
  d.WantedBelow c.root (fun n _ => isCounterName n) l ∨
    d.WantedBelow c.nimCachePath (fun n _ => isCounterName n) l

/-- A trace file directly in the root. -/
def IsTrace (c : Config) (d : Disk) (l : Location) : Prop :=
  d.FileIn c.root traceFile.toList l ∨ d.FileIn c.root sourceTraceFile.toList l

/-- What a clean-up takes from a disk. -/
inductive Cleared (c : Config) (d : Disk) (l : Location) : Prop
  | report (h : InReport c d l)
  | counter (h : IsCounter c d l)
  | trace (h : IsTrace c d l)
  | compiledTest (h : Swept c d l)

section Lasting

variable {c : Config} (hc : c.Descends)
include hc

theorem lasting_isCounter : Disk.Lasting (IsCounter c) :=
  (Disk.Lasting.wantedBelow (Path.up_notMem_parts hc.root) _).or
    (.wantedBelow (hc.notMem_resolve hc.nimCache) _)

theorem lasting_isTrace : Disk.Lasting (IsTrace c) :=
  (Disk.Lasting.fileIn (Path.up_notMem_parts hc.root) _).or
    (.fileIn (Path.up_notMem_parts hc.root) _)

theorem lasting_swept : Disk.Lasting (Swept c) :=
  .wantedBelow (hc.notMem_resolve hc.testsDir) _

end Lasting

/-! ## Phases -/

/-- The file of a name in a directory goes, if it can be looked up. -/
theorem takes_removeIfPossible {d : Disk} (hs : d.Settled) (ht : d.tree.Linkless) {p : Path}
    (hp : p.chars ≠ []) (hup : ['.', '.'] ∉ p.parts) {n : Name} (hn : n.isPlain = true)
    (hlen : ¬ maxNameOctets < octetCount n) :
    d.Takes (fun d => d.FileIn p n) (removeIfPossible (p.child n) d) := by
  have hlasting := Disk.Lasting.fileIn hup n
  unfold removeIfPossible
  cases h : d.removeFile (p.child n) with
  | ok d' =>
    obtain ⟨l, hl, rfl⟩ := Disk.fileIn_of_removeFile ht hp hn h
    obtain ⟨content, mode, hf⟩ := hlasting.file hl
    have hone (k : Location) : k = l ↔ d.FileIn p n k :=
      ⟨fun e => e ▸ hl, fun hk => hk.unique hl⟩
    have h := Disk.Takes.of_strips hlasting ((Disk.strips_prune_file hf).congr hone)
      (List.nodup_singleton l) fun k => by rw [List.mem_singleton, hone]
    exact h
  | error cause =>
    have hno (l : Location) : ¬ d.FileIn p n l := by
      rintro ⟨r, content, mode, hr, rfl, hf, hfits⟩
      rw [Disk.removeFile_child ht (Disk.leads_of_resolve hr) hlen hf hfits] at h
      cases h
    have h := Disk.Takes.of_strips hlasting (.refl hs hno) List.nodup_nil fun l => by simp [hno l]
    exact h

/-- The report goes with all it holds, and is counted when its directory goes as well. -/
theorem strips_removeReport {d : Disk} (hs : d.Settled) (ht : d.tree.Linkless) {c : Config}
    (hup : ['.', '.'] ∉ c.htmlPath.parts) :
    d.Strips (InReport c d) (removeReport c.htmlPath d).2 ∧
      ((removeReport c.htmlPath d).1 = true ↔ c.htmlPath.Named ∧
        ∃ r, d.resolve c.htmlPath = .ok r ∧ d.tree.node? r = some .directory) := by
  unfold removeReport
  by_cases hdir : d.isDirectory c.htmlPath = true
  · obtain ⟨r, hp, hr⟩ := Disk.isDirectory_iff.1 hdir
    obtain ⟨hstrips, hdone⟩ := Disk.removeAll_of_directory hp hr hs ht hup
    have hin (l : Location) : (d.tree.node? r = some .directory ∧ r <+: l ∧
        (l = r → c.htmlPath.Named)) ↔ InReport c d l := by
      simp [InReport, hp]
    have hdone' : (d.removeAll c.htmlPath).1 = .ok () ↔ c.htmlPath.Named ∧
        ∃ r, d.resolve c.htmlPath = .ok r ∧ d.tree.node? r = some .directory := by
      simpa [hp] using hdone
    rw [if_pos hdir]
    cases h : d.removeAll c.htmlPath with
    | mk result d' =>
      rw [h] at hstrips hdone'
      cases result with
      | ok _ => exact ⟨hstrips.congr hin, iff_of_true rfl (hdone'.1 rfl)⟩
      | error cause =>
        exact ⟨hstrips.congr hin, iff_of_false (by simp) fun hn => by cases hdone'.2 hn⟩
  · have hno {r : Location} (hp : d.resolve c.htmlPath = .ok r) :
        d.tree.node? r ≠ some .directory := fun hr =>
      hdir (Disk.isDirectory_iff.2 ⟨r, hp, Tree.found?_of_node? hr⟩)
    rw [if_neg hdir]
    exact ⟨.refl hs fun l ⟨r, hp, hr, _⟩ => hno hp hr,
      iff_of_false (by simp) fun ⟨_, r, hp, hr⟩ => hno hp hr⟩

/-- The phases of a clean-up, with the disk behind each of them and what is counted. -/
structure Phases (c : Config) (d₀ d₁ d₂ d₃ d₄ : Disk) (answer : CleanReport) : Prop where
  report : d₀.Strips (InReport c d₀) d₁
  reported : answer.htmlReport = true ↔ c.htmlPath.Named ∧
    ∃ r, d₀.resolve c.htmlPath = .ok r ∧ d₀.tree.node? r = some .directory
  counters : d₁.Takes (IsCounter c) (answer.counters, d₂)
  traces : d₂.Takes (IsTrace c) (answer.traces, d₃)
  compiledTests : d₃.Takes (Swept c) (answer.compiledTests, d₄)

theorem exists_phases_clean {c : Config} (hc : c.Descends) {s : Session} (hs : s.disk.Settled)
    (ht : s.disk.tree.Linkless) :
    ∃ d₁ d₂ d₃, Phases c s.disk d₁ d₂ d₃ ((clean c).run s).2.disk ((clean c).run s).1 := by
  have hroot := Path.up_notMem_parts hc.root
  have hcache := hc.notMem_resolve hc.nimCache
  obtain ⟨hreport, hreported⟩ := strips_removeReport hs ht (hc.notMem_resolve hc.htmlDir)
  have hs₁ := hreport.fades.settled
  have ht₁ := hreport.fades.linkless ht
  have hinRoot := Disk.takes_removeFilesBelow hs₁ hroot fun n _ => isCounterName n
  have hs₂ := hinRoot.strips.fades.settled
  have ht₂ := hinRoot.strips.fades.linkless ht₁
  have hinCache := Disk.takes_removeFilesBelow hs₂ hcache fun n _ => isCounterName n
  have hs₃ := hinCache.strips.fades.settled
  have ht₃ := hinCache.strips.fades.linkless ht₂
  obtain ⟨hplain, hlen⟩ := plain_of_trace (.inl rfl : traceFile = traceFile ∨ _)
  obtain ⟨hplain', hlen'⟩ := plain_of_trace (.inr rfl : _ ∨ sourceTraceFile = sourceTraceFile)
  have hwhole := takes_removeIfPossible hs₃ ht₃ hc.root_ne_nil hroot hplain hlen
  have hs₄ := hwhole.strips.fades.settled
  have ht₄ := hwhole.strips.fades.linkless ht₃
  have hsource := takes_removeIfPossible hs₄ ht₄ hc.root_ne_nil hroot hplain' hlen'
  have hs₅ := hsource.strips.fades.settled
  have htests := Disk.takes_removeFilesBelow hs₅ (hc.notMem_resolve hc.testsDir) isCompiledTest
  exact ⟨_, _, _, hreport, hreported,
    hinRoot.trans hinCache (.wantedBelow hcache _) ht₁,
    hwhole.trans hsource (.fileIn hroot _) ht₃, htests⟩

/-- The phases of a clean-up take together what is cleared on the first disk. -/
theorem Phases.strips {c : Config} (hc : c.Descends) {d₀ d₁ d₂ d₃ d₄ : Disk} {answer : CleanReport}
    (h : Phases c d₀ d₁ d₂ d₃ d₄ answer) (ht : d₀.tree.Linkless) :
    d₀.Strips (Cleared c d₀) d₄ := by
  have hcounters := h.report.trans h.counters.strips (lasting_isCounter hc) ht
  have htraces := hcounters.trans h.traces.strips (lasting_isTrace hc) ht
  have hall := htraces.trans h.compiledTests.strips (lasting_swept hc) ht
  refine hall.congr fun l => ⟨?_, fun hl => ?_⟩
  · rintro (((hl | hl) | hl) | hl)
    · exact .report hl
    · exact .counter hl
    · exact .trace hl
    · exact .compiledTest hl
  · cases hl with
    | report hl => exact .inl (.inl (.inl hl))
    | counter hl => exact .inl (.inl (.inr hl))
    | trace hl => exact .inl (.inr hl)
    | compiledTest hl => exact .inr hl

theorem strips_clean {c : Config} (hc : c.Descends) {s : Session} (hs : s.disk.Settled)
    (ht : s.disk.tree.Linkless) :
    s.disk.Strips (Cleared c s.disk) ((clean c).run s).2.disk := by
  obtain ⟨d₁, d₂, d₃, h⟩ := exists_phases_clean hc hs ht
  exact h.strips hc ht

/-- **A clean-up takes exactly what is cleared**, however the directories lie in one another. All
else keeps its content and its permissions. -/
theorem clean_clears_exactly {c : Config} (hc : c.Descends) {s : Session} (hs : s.disk.Settled)
    (ht : s.disk.tree.Linkless) (l : Location) :
    (Cleared c s.disk l → ((clean c).run s).2.disk.tree.node? l = none) ∧
      (¬ Cleared c s.disk l →
        ((clean c).run s).2.disk.tree.node? l = s.disk.tree.node? l) :=
  ⟨(strips_clean hc hs ht).absent, (strips_clean hc hs ht).stays⟩

/-- A project whose compiler cache and report lie in its root. Some files are of two kinds. -/
def nestedProject : Session where
  disk :=
    { tree :=
        { entries :=
            [(["p".toList], .directory),
              (["p".toList, "a.gcda".toList], .file (.raw [0xff]) 0o755),
              (["p".toList, "cache".toList], .directory),
              (["p".toList, "cache".toList, "b.gcda".toList], .file (.raw [0xff]) 0o644),
              (["p".toList, "coverage.info".toList], .file (.text "TN:\n") 0o755),
              (["p".toList, "coverage_html".toList], .directory),
              (["p".toList, "coverage_html".toList, "c.gcda".toList], .file (.raw []) 0o755),
              (["p".toList, "tool".toList], .file (.text "#!/bin/sh\n") 0o755),
              (["p".toList, "main.nim".toList], .file (.text "discard\n") 0o755)]
          distinct := by decide
          rooted := by decide
          named := by decide }
      here := [] }
  issued := []

/-- The configuration of the project, whose tests directory is its root. -/
def nestedConfig : Config :=
  { Config.standard none (.ofString "p") with
    testsDir := ⟨[]⟩
    nimCache := .ofString "cache" }

theorem descends_nestedConfig : nestedConfig.Descends := by
  constructor <;> decide

theorem linkless_nestedProject : nestedProject.disk.tree.Linkless := by
  rw [Tree.linkless_iff]
  simp [nestedProject]

/-- Where all directories are the root or lie in it, a clean-up takes what is cleared. -/
theorem clean_clears_nestedProject :
    nestedConfig.Descends ∧ nestedProject.disk.Settled ∧ nestedProject.disk.tree.Linkless ∧
      ∀ l, (Cleared nestedConfig nestedProject.disk l →
          ((clean nestedConfig).run nestedProject).2.disk.tree.node? l = none) ∧
        (¬ Cleared nestedConfig nestedProject.disk l →
          ((clean nestedConfig).run nestedProject).2.disk.tree.node? l =
            nestedProject.disk.tree.node? l) := by
  have hs : nestedProject.disk.Settled := Disk.settled_of_node? rfl
  exact ⟨descends_nestedConfig, hs, linkless_nestedProject,
    clean_clears_exactly descends_nestedConfig hs linkless_nestedProject⟩

/-! ## A path that is too long -/

theorem parts_slashes (n : Nat) : (padded [] n).parts = [['p']] := by
  have hidle : Path.isIdle [] = true := rfl
  simp [Path.parts, pieces_padded hidle]

theorem octetCount_slashes : octetCount (padded [] 4090).chars = 4091 :=
  octetCount_padded [] 4090

theorem fits_slashes : (padded [] 4090).fits = true := by
  simp [Path.fits, octetCount_slashes, maxPathOctets]

/-- No file can be looked up in a directory by the path with so many slashes. -/
theorem not_fits_join_slashes {q : Path} (hq : q.isAbsolute = false)
    (hlen : 5 ≤ octetCount q.chars) : ((padded [] 4090).join q).fits = false := by
  refine not_fits_join hq ?_
  rw [octetCount_slashes, maxPathOctets]
  omega

/-- A trace file that nobody may execute is not cleared when paths behind the root are too long. -/
theorem not_cleared_of_long {c : Config} {d : Disk} {l : Location} {content : Content} {mode : Nat}
    (hlast : l.getLast? = some traceFile.toList)
    (hf : d.tree.node? l = some (.file content mode))
    (hx : (Node.file content mode).isExecutable = false)
    (hlong : ∀ name ∈ [traceFile, sourceTraceFile],
      (c.root.join (.ofString name)).fits = false)
    (hhtml : c.htmlPath.fits = false) : ¬ Cleared c d l := by
  have hcounter {p : Path} (h : d.WantedBelow p (fun n _ => isCounterName n) l) : False := by
    obtain ⟨_, _, _, -, -, -, -, -, hname, -⟩ := h
    rw [hlast] at hname
    exact absurd hname (by decide : ¬ isCounterName traceFile.toList = true)
  have htrace {name : String} (hn : name ∈ [traceFile, sourceTraceFile])
      (h : d.FileIn c.root name.toList l) : False := by
    obtain ⟨_, _, _, -, -, -, hfits⟩ := h
    have hno : (c.root.child name.toList).fits = false := hlong name hn
    rw [hno] at hfits
    cases hfits
  intro h
  cases h with
  | report h =>
    obtain ⟨r, hr, -⟩ := h
    obtain ⟨-, -, hfits⟩ := Disk.checkText_iff.1 (Disk.resolve_eq_ok.1 hr).1
    rw [hhtml] at hfits
    cases hfits
  | counter h => exact h.elim hcounter hcounter
  | trace h => exact h.elim (htrace (by simp)) (htrace (by simp))
  | compiledTest h =>
    obtain ⟨_, _, _, -, -, -, -, hf', hwanted, -⟩ := h
    rw [hf] at hf'
    cases hf'
    simp [isCompiledTest, hx] at hwanted

/-- A trace file in the root is left by a clean-up when the path of the root is so long that none
can be looked up through it. -/
theorem clean_leaves_trace :
    (Config.standard none (padded [] 4090)).Descends ∧
      ['.'] ∉ (Config.standard none (padded [] 4090)).htmlPath.parts ∧
      tracedProject.disk.Settled ∧ tracedProject.disk.tree.Linkless ∧
      tracedProject.disk.resolve (padded [] 4090) = .ok ["p".toList] ∧
      ((clean (.standard none (padded [] 4090))).run tracedProject).2.disk.tree.node?
          (["p".toList] ++ [traceFile.toList]) = some (.file (.text "TN:\n") 0o644) := by
  have hc : (Config.standard none (padded [] 4090)).Descends :=
    { root_ne_nil := List.cons_ne_nil _ _
      root := by
        rw [Config.standard, components_padded (by decide)]
        decide
      nimCache := by decide
      testsDir := by decide
      htmlDir := by decide }
  have hs : tracedProject.disk.Settled := Disk.settled_of_node? rfl
  have hhtml : (Config.standard none (padded [] 4090)).htmlPath =
      (padded [] 4090).join Config.defaultHtmlDir := Config.resolve_of_relative rfl
  refine ⟨hc, ?_, hs, linkless_tracedProject, ?_, ?_⟩
  · rw [hhtml, Path.parts_join rfl, parts_slashes]
    decide
  · exact resolve_padded rfl linkless_tracedProject rfl rfl fits_slashes
  · refine (strips_clean hc hs linkless_tracedProject).stays
      (not_cleared_of_long rfl rfl rfl (fun name hn => ?_) ?_)
    · rcases List.mem_pair.1 hn with rfl | rfl
      · exact not_fits_join_slashes rfl (by decide)
      · exact not_fits_join_slashes rfl (by decide)
    · rw [hhtml]
      exact not_fits_join_slashes rfl (by decide)

end StatusBadges.Coverage
