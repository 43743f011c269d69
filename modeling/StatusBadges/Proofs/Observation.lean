import StatusBadges.Proofs.Command.Sequence
import StatusBadges.Proofs.Config
import StatusBadges.Proofs.Coverage.Census
import StatusBadges.Proofs.Pipeline
import StatusBadges.Proofs.Sources

/-!
# What the badges depend on

Without the coverage tool, and with programs that answer by the command alone and leave the files
alone, a run looks at nothing but directories, sources and manifests. Every question that it asks
has the same answer on two disks with the same of these (`SameSources`), and a step that is made of
such questions and of commands gives the same on both (`Observes`). What a run writes is none of
these, so that it never feeds back into later badges.
-/

namespace StatusBadges

/-! ## Questions -/

/-- Without names a path that goes on from the root asks for the root as a directory. -/
theorem Path.endsRead_join_nil {root : Path} : (root.join (.ofNames [])).EndsRead := by
  intro n hn hplain
  have hempty : (Path.ofNames []) = ⟨[]⟩ := rfl
  rw [hempty] at hn
  have hslash : (root.join ⟨[]⟩).chars = [] ∨ (root.join ⟨[]⟩).endsWithSlash = true := by
    rw [Path.join, if_neg (by simp [Path.isAbsolute])]
    split
    · next hend =>
      simpa [Path.endsWithSlash] using hend
    · exact .inr (by simp [Path.endsWithSlash])
  rcases hslash with hnil | hslash
  · simp [Path.steps, Path.parts, Path.pieces, Path.endsWithSlash, hnil, Text.split] at hn
  · rw [Path.steps, hslash, if_pos rfl, List.getLast?_concat] at hn
    cases Option.some.inj hn
    cases hplain

/-- A path that goes on from the root along names ends as they do. -/
theorem Path.endsRead_join {root : Path} {names : List Name} (hplain : Path.Plain names)
    (hread : ∀ n, names.getLast? = some n → Sources.isRead n = true) :
    (root.join (.ofNames names)).EndsRead := by
  have hrelative := Path.isAbsolute_ofNames hplain
  rcases List.eq_nil_or_concat names with rfl | ⟨init, n, rfl⟩
  · exact Path.endsRead_join_nil
  · rw [List.concat_eq_append] at *
    have hparts : (root.join (.ofNames (init ++ [n]))).parts = (root.parts ++ init) ++ [n] := by
      rw [Path.parts_join hrelative, Path.parts_ofNames hplain, List.append_assoc]
    exact Path.endsRead_of_parts hparts (hread n (by simp))

theorem Ways.join {d d' : Disk} {root : Path} {names : List Name} (hroot : Ways d d' root.parts)
    (hplain : Path.Plain names) : Ways d d' (root.join (.ofNames names)).parts := by
  rw [Path.parts_join (Path.isAbsolute_ofNames hplain), Path.parts_ofNames hplain]
  exact hroot.append fun hmem => absurd (hplain _ hmem) (by decide)

namespace SameSources

variable {d d' : Disk} (h : SameSources d d')
include h

theorem projectVersion_eq {root : Path} (hroot : Ways d d' root.parts) :
    Manifest.projectVersion d' root = Manifest.projectVersion d root := by
  have hread (n : Name) (hn : Manifest.isManifestName n = true) : Sources.isRead n = true := by
    simp [Sources.isRead, hn]
  have hfind : Manifest.find? d' root = Manifest.find? d root := by
    rw [Manifest.find?, Manifest.find?, h.filesIn_eq hroot hread]
  rw [Manifest.projectVersion, Manifest.projectVersion, hfind]
  cases hmanifest : Manifest.find? d root with
  | none => rfl
  | some manifest =>
    obtain ⟨hways, hends⟩ := ways_of_mem_filesIn hroot hread (List.mem_of_mem_head? hmanifest)
    obtain ⟨text, hd', hd⟩ | ⟨cause, cause', hd', hd⟩ := h.readText_or hways hends
    · simp only [hd', hd]
    · simp only [hd', hd]

theorem findEntry?_eq {root : Path} (hroot : Ways d d' root.parts) :
    Build.findEntry? d' root = Build.findEntry? d root := by
  have hcandidate (p : Path) (hp : p ∈ Build.entryCandidates.map Path.ofString) :
      d'.isFile (root.join p) = d.isFile (root.join p) := by
    obtain ⟨names, rfl, hplain, hlast⟩ : ∃ names, p = .ofNames names ∧ Path.Plain names ∧
        ∀ n, names.getLast? = some n → Sources.isRead n = true := by
      simp only [Build.entryCandidates, List.map_cons, List.map_nil, List.mem_cons,
        List.not_mem_nil, or_false] at hp
      rcases hp with rfl | rfl
      · exact ⟨["main.nim".toList], rfl, by unfold Path.Plain; decide, by decide⟩
      · exact ⟨["src".toList, "main.nim".toList], rfl, by unfold Path.Plain; decide, by decide⟩
    exact h.isFile_eq (hroot.join hplain) (Path.endsRead_join hplain hlast)
  have hfind : (Build.entryCandidates.map Path.ofString).find? (fun p => d'.isFile (root.join p)) =
      (Build.entryCandidates.map Path.ofString).find? fun p => d.isFile (root.join p) := by
    rw [← List.head?_filter, ← List.head?_filter, List.filter_congr hcandidate]
  rw [Build.findEntry?, Build.findEntry?, hfind, h.nimFiles_eq hroot]

theorem countSuiteBlocks_eq {testsDir : Path} (htests : Ways d d' testsDir.parts) :
    TestSuite.countSuiteBlocks d' testsDir = TestSuite.countSuiteBlocks d testsDir := by
  have hread (n : Name) (hn : Sources.isTestName n = true) : Sources.isRead n = true := by
    simp [Sources.isRead, Name.extension?_of_isTestName hn, Sources.sourceExtension]
  have hfiles : Sources.testFiles d' testsDir = Sources.testFiles d testsDir :=
    h.filesIn_eq htests hread
  rw [TestSuite.countSuiteBlocks, TestSuite.countSuiteBlocks, hfiles]
  congr 1
  refine List.map_congr_left fun p hp => ?_
  obtain ⟨hways, hends⟩ := ways_of_mem_filesIn htests hread hp
  obtain ⟨text, hd', hd⟩ | ⟨cause, cause', hd', hd⟩ := h.readText_or hways hends
  · simp only [hd', hd]
  · simp only [hd', hd]

theorem ofSource_eq {c : Config} (hroot : Ways d d' c.root.parts) {source : Path}
    (hsource : source ∈ Sources.nimFiles d c.root) :
    Census.ofSource d' c source = Census.ofSource d c source := by
  rw [Sources.nimFiles_eq_sort, Path.mem_sort] at hsource
  obtain ⟨names, hnames, rfl⟩ := List.mem_map.1 hsource
  have hplain := Sources.plain_of_mem_sourceNames hnames
  have hends : (c.root.join (.ofNames names)).EndsRead := by
    refine Path.endsRead_join hplain fun n hn => ?_
    obtain ⟨-, hext⟩ := List.mem_filter.1 hnames
    simp only [Sources.isSource, hn, Bool.and_eq_true, decide_eq_true_eq] at hext
    simpa [Sources.isRead] using .inl hext.1
  obtain ⟨text, hd', hd⟩ | ⟨cause, cause', hd', hd⟩ := h.readText_or (hroot.join hplain) hends
  · simp only [Census.ofSource, hd', hd]
  · simp only [Census.ofSource, hd', hd]
    generalize Census.role _ _ = role
    cases role <;> rfl

theorem ofProject_eq {c : Config} (hroot : Ways d d' c.root.parts) :
    Census.ofProject d' c = Census.ofProject d c := by
  rw [Census.ofProject, Census.ofProject, h.nimFiles_eq hroot]
  congr 1
  exact List.map_congr_left fun source hsource => h.ofSource_eq hroot hsource

end SameSources

/-! ## Steps -/

/-- The programs leave the files alone and answer by the command alone. -/
structure Toolbox.Blind (tools : Toolbox) : Prop where
  passive : tools.Passive
  answers : ∀ issued issued' d d' command,
    (tools.run issued d command).1 = (tools.run issued' d' command).1

/-- A step gives the same on two disks and leaves both as they are. -/
def Observes {α : Type} (d d' : Disk) (x : Step α) : Prop :=
  ∀ s s', s.disk = d → s'.disk = d' →
    (x.run s').1 = (x.run s).1 ∧ (x.run s).2.disk = d ∧ (x.run s').2.disk = d'

namespace Observes

variable {α β : Type} {d d' : Disk}

theorem pure (a : α) : Observes d d' (Pure.pure a : Step α) :=
  fun _ _ hs hs' => ⟨rfl, hs, hs'⟩

theorem ask {question : Disk → α} (h : question d' = question d) :
    Observes d d' (Session.ask question) := by
  rintro s s' rfl rfl
  exact ⟨h, rfl, rfl⟩

theorem issue {tools : Toolbox} (htools : tools.Blind) (hs : d.Settled ∧ d'.Settled)
    (command : Command) : Observes d d' (Session.issue tools command) := by
  rintro s s' rfl rfl
  refine ⟨?_, htools.passive.disk_after hs.1 command, htools.passive.disk_after hs.2 command⟩
  exact congrArg (Except.mapError _) (htools.answers s'.issued s.issued s'.disk s.disk command)

theorem bind {x : Step α} {k : α → Step β} (hx : Observes d d' x)
    (hk : ∀ a, Observes d d' (k a)) : Observes d d' (x >>= k) := by
  intro s s' hs hs'
  obtain ⟨hvalue, hd, hd'⟩ := hx s s' hs hs'
  rw [Session.run_bind, Session.run_bind, hvalue]
  exact hk _ _ _ hd hd'

end Observes

section Looking

variable {tools : Toolbox} (htools : tools.Blind) {d d' : Disk} (h : SameSources d d') {c : Config}
  (hroot : Ways d d' c.root.parts) (htests : Ways d d' c.testsPath.parts)
include htools h

include hroot in
theorem observes_check : Observes d d' (Build.check tools c.root) := by
  refine .bind (.ask (h.findEntry?_eq hroot)) fun entry => ?_
  cases entry with
  | none => exact .pure _
  | some entry =>
    refine .bind (.issue htools h.settled _) fun answer => ?_
    cases answer <;> exact .pure _

include htests in
theorem observes_testRun : Observes d d' (TestSuite.run tools c.root c.testsPath) := by
  refine .bind (.issue htools h.settled _) fun answer => ?_
  cases answer with
  | error failure => exact .pure _
  | ok output =>
    by_cases hsuccess : output.success = true
    · simp only [hsuccess, if_true]
      exact .bind (.ask (h.countSuiteBlocks_eq htests)) fun _ => .pure _
    · simp only [hsuccess]
      exact .pure _

omit htools in
include hroot in
theorem observes_calculate (hlcov : tools.locate d "lcov" = none)
    (hlcov' : tools.locate d' "lcov" = none) : Observes d d' (Coverage.calculate tools c) := by
  rintro s s' rfl rfl
  have hleft {s : Session} (hlcov : tools.locate s.disk "lcov" = none) :
      (Coverage.calculate tools c).run s = (.ofCensus (Census.ofProject s.disk c), s) :=
    Coverage.run_calculate_of_not_located c (by simp [hlcov])
  rw [hleft hlcov, hleft hlcov', h.ofProject_eq hroot]
  exact ⟨rfl, rfl, rfl⟩

include hroot htests in
/-- **Looking at a project** finds the same where sources and manifests are the same, and changes
nothing. -/
theorem observes_generate (hlcov : tools.locate d "lcov" = none)
    (hlcov' : tools.locate d' "lcov" = none) : Observes d d' (Pipeline.generate tools c) := by
  refine .bind (.ask (h.projectVersion_eq hroot)) fun version => ?_
  refine .bind (observes_check htools h hroot) fun build => ?_
  refine .bind (observes_testRun htools h htests) fun tests => ?_
  exact .bind (observes_calculate h hroot hlcov hlcov') fun coverage => .pure _

end Looking

/-! ## What a run writes -/

namespace SameSources

variable {d d' : Disk} (hs : d.Settled) (ht : d.tree.Linkless)
include hs ht

/-- New directories are no sources. -/
theorem of_builds {paths : List Path} (hb : Disk.Builds paths d d') : SameSources d d' := by
  refine ⟨hb.here_eq, ⟨hs, hb.settled hs⟩, ⟨ht, ht.of_grows hb.grows⟩, fun l n _ => ?_⟩
  by_cases e : d'.tree.node? (l ++ [n]) = d.tree.node? (l ++ [n])
  · rw [e]
  · obtain ⟨hnone, hdir, -⟩ := hb.made _ e
    rw [hnone, hdir]
    rfl

/-- A file of another name is no source. -/
theorem of_wrote {p : Path} {before : List Name} {n : Name} {l : Location} {text : String}
    (hw : Disk.Wrote text l d d') (hl : d'.resolve p = .ok l) (hparts : p.parts = before ++ [n])
    (hn : Sources.isRead n = false) : SameSources d d' := by
  have hs' := hw.settled hs
  have ht' := ht.of_grows hw.grows
  refine ⟨hw.here_eq, ⟨hs, hs'⟩, ⟨ht, ht'⟩, fun k m hm => ?_⟩
  by_cases e : k ++ [m] = l
  · -- The location ends with the name that the path ends with.
    obtain ⟨mode, hnode, -⟩ := hw.node
    obtain ⟨before', k', n', hparts', -, -, hl', -⟩ :=
      Disk.exists_name_of_node?_file hs' ht' (Disk.node?_of_resolve hl hnode)
    rw [hl] at hl'
    obtain ⟨-, hname⟩ := List.append_inj' (hparts.symm.trans hparts') rfl
    obtain ⟨-, hlast⟩ := List.append_inj' (e.trans (Except.ok.inj hl')) rfl
    rw [List.singleton_inj.1 hlast, ← List.singleton_inj.1 hname, hn] at hm
    cases hm
  · rw [hw.others _ e]

end SameSources

namespace Pipeline

theorem disk_beforeSaving {tools : Toolbox} (htools : tools.Blind) {c : Config} {s : Session}
    (hs : s.disk.Settled) (ht : s.disk.tree.Linkless) (hroot : ['.', '.'] ∉ c.root.parts)
    (htests : ['.', '.'] ∉ c.testsPath.parts) (hlcov : tools.locate s.disk "lcov" = none) :
    (beforeSaving tools c s).disk = s.disk := by
  obtain ⟨-, hdisk, -⟩ := observes_generate htools (.refl hs ht) (.of_notMem hroot)
    (.of_notMem htests) hlcov hlcov s s rfl rfl
  have hsettled : ((generate tools c).run s).2.disk.Settled := hdisk ▸ hs
  rw [beforeSaving, htools.passive.disk_after hsettled, hdisk]

/-- **A run that ends well leaves the sources as they are**: what it writes are the data file, the
README and directories. -/
theorem sameSources_of_run {tools : Toolbox} {c : Config} {s : Session} {summary : Summary}
    (hs : s.disk.Settled) (ht : s.disk.tree.Linkless)
    (hbefore : (beforeSaving tools c s).disk = s.disk)
    (hdata : c.dataFile = Config.defaultDataFile) (hreadme : c.readme = Config.defaultReadme)
    (h : ((run tools c).run s).1 = .ok summary) :
    SameSources s.disk ((run tools c).run s).2.disk := by
  obtain ⟨hsave, hupdate, -, -⟩ := run_eq_ok h
  rw [hbefore] at hsave
  obtain ⟨made, l, hbuilds, -, hl, hwrote⟩ := saves_of_save hs hsave
  have hmade := SameSources.of_builds hs ht hbuilds
  have hdataParts : c.dataPath.parts =
      (c.root.parts ++ ["badges".toList]) ++ ["data.json".toList] := by
    rw [Config.dataPath, hdata, Config.parts_resolve rfl, List.append_assoc]
    rfl
  have hsaved := hmade.trans (.of_wrote hmade.settled.2 hmade.linkless.2 hwrote hl hdataParts
    (by decide))
  obtain ⟨-, hrest⟩ := updates_of_updateReadme hsaved.settled.2 hupdate
  split at hrest
  · obtain ⟨content, m, -, -, hm, hwrote'⟩ := hrest
    have hreadmeParts : c.readmePath.parts = c.root.parts ++ ["README.md".toList] := by
      rw [Config.readmePath, hreadme, Config.parts_resolve rfl]
      rfl
    exact hsaved.trans (.of_wrote hsaved.settled.2 hsaved.linkless.2 hwrote' hm hreadmeParts
      (by decide))
  · rw [hrest]
    exact hsaved

/-- **The badges depend on directories, sources and manifests only**, where the coverage tool is
missing and the programs see nothing of the files. What is found out about two projects with the
same of these is the same, and neither is changed. What a run writes is none of these, and so the
badges of the next run are the same. There are no links, by which a file that a run writes could be
a source as well. -/
theorem sources_determine_badges {tools : Toolbox} (htools : tools.Blind) :
    (∀ (c : Config) (s s' : Session), SameSources s.disk s'.disk →
      (∀ l, s'.disk.tree.node? l = some .directory ↔ s.disk.tree.node? l = some .directory) →
      tools.locate s.disk "lcov" = none → tools.locate s'.disk "lcov" = none →
      ((generate tools c).run s').1 = ((generate tools c).run s).1 ∧
        ((generate tools c).run s).2.disk = s.disk ∧
        ((generate tools c).run s').2.disk = s'.disk) ∧
    ∀ (c : Config) (s : Session) (first second : Summary),
      s.disk.Settled → s.disk.tree.Linkless → .up ∉ c.root.components →
      c.readme = Config.defaultReadme → c.dataFile = Config.defaultDataFile →
      c.testsDir = Config.defaultTestsDir →
      tools.locate s.disk "lcov" = none →
      tools.locate ((run tools c).run s).2.disk "lcov" = none →
      ((run tools c).run s).1 = .ok first →
      ((run tools c).run ((run tools c).run s).2).1 = .ok second →
      second.badges = first.badges := by
  constructor
  · intro c s s' h hdirs hlcov hlcov'
    exact observes_generate htools h (.of_directories hdirs _) (.of_directories hdirs _) hlcov
      hlcov' s s' rfl rfl
  · intro c s first second hs ht hup hreadme hdata htestsDir hlcov hlcov' hfirst hsecond
    have hroot := Path.up_notMem_parts hup
    have htests : ['.', '.'] ∉ c.testsPath.parts := by
      rw [Config.testsPath, htestsDir, Config.parts_resolve rfl]
      simpa [hroot] using (by decide : ['.', '.'] ∉ Config.defaultTestsDir.parts)
    have hbefore := disk_beforeSaving htools hs ht hroot htests hlcov
    have hsame := sameSources_of_run hs ht hbefore hdata hreadme hfirst
    obtain ⟨hfound, -⟩ := observes_generate htools hsame (.of_notMem hroot) (.of_notMem htests)
      hlcov hlcov' s ((run tools c).run s).2 rfl rfl
    obtain ⟨-, -, hbadges, -⟩ := run_eq_ok hfirst
    obtain ⟨-, -, hbadges', -⟩ := run_eq_ok hsecond
    rw [hbadges, hbadges', hfound]

theorem blind_noPrograms : noPrograms.Blind :=
  ⟨fun _ _ _ _ ht => (by cases ht), fun _ _ _ _ _ => rfl⟩

/-- A project without a README whose badges were recorded, given its data file. -/
def recordedProject (data : String) : Session where
  disk :=
    { tree :=
        { entries :=
            [(["proj".toList], .directory),
              (["proj".toList, "main.nim".toList], .file (.text "proc f() = discard\n") 0o644),
              (["proj".toList, "badges".toList], .directory),
              (["proj".toList, "badges".toList, "data.json".toList], .file (.text data) 0o644)]
          distinct := by simp
          rooted := by simp
          named := by simp; decide }
      here := [] }
  issued := []

theorem withTree_recordedProject (data data' : String) :
    (recordedProject data).disk.withTree (recordedProject data').disk.tree =
      (recordedProject data').disk := by
  have hhere : (recordedProject data').disk.tree.anchor (recordedProject data).disk.here = [] :=
    Tree.anchor_eq_self rfl
  rw [Disk.withTree, hhere]
  rfl

/-- A run on the project records its badges and ends well. -/
theorem run_recordedProject {s : Session} {data : String}
    (hs : s.disk = (recordedProject data).disk) :
    ∃ summary data', ((run noPrograms bareConfig).run s).1 = .ok summary ∧
      ((run noPrograms bareConfig).run s).2.disk = (recordedProject data').disk := by
  have hsave : save bareConfig.dataPath (record noPrograms bareConfig s) s.disk = (.ok (),
      s.disk.withTree (recordedProject (record noPrograms bareConfig s).encode).disk.tree) := by
    rw [hs]
    rfl
  have hupdate (data : String) (badges : BadgeSet) :
      updateReadme bareConfig.readmePath badges (recordedProject data).disk =
        (.ok false, (recordedProject data).disk) :=
    rfl
  rw [hs, withTree_recordedProject, ← hs, ← disk_beforeSaving_noPrograms bareConfig s] at hsave
  have hok := run_of_ok hsave (hupdate _ _)
  obtain ⟨-, hdisk, -⟩ := run_eq_ok hok
  rw [saved, hsave, hupdate] at hdisk
  exact ⟨_, _, hok, (Prod.ext_iff.1 hdisk).2.symm⟩

/-- The data file of a project does not matter, and running twice gives the same badges. -/
theorem sources_determine_badges_recordedProject :
    ((generate noPrograms bareConfig).run (recordedProject "new")).1 =
        ((generate noPrograms bareConfig).run (recordedProject "old")).1 ∧
    ∃ first second, ((run noPrograms bareConfig).run (recordedProject "old")).1 = .ok first ∧
      ((run noPrograms bareConfig).run
        ((run noPrograms bareConfig).run (recordedProject "old")).2).1 = .ok second ∧
      second.badges = first.badges := by
  have hs : (recordedProject "old").disk.Settled := Disk.settled_of_node? rfl
  have ht : (recordedProject "old").disk.tree.Linkless := by
    rw [Tree.linkless_iff]
    simp [recordedProject]
  obtain ⟨hgenerate, hrun⟩ := sources_determine_badges blind_noPrograms
  constructor
  · have hwrite : (recordedProject "old").disk.writeText bareConfig.dataPath "new" =
        .ok ((recordedProject "old").disk.withTree (recordedProject "new").disk.tree) :=
      rfl
    rw [withTree_recordedProject] at hwrite
    obtain ⟨l, -, hl, hwrote⟩ := Disk.wrote_of_writeText hs hwrite
    have hparts : bareConfig.dataPath.parts =
        ["proj".toList, "badges".toList] ++ ["data.json".toList] :=
      rfl
    have hsame := SameSources.of_wrote hs ht hwrote hl hparts (by decide)
    exact (hgenerate bareConfig _ _ hsame hwrote.directory_iff rfl rfl).1
  · obtain ⟨first, data, hfirst, hdisk⟩ := run_recordedProject (s := recordedProject "old") rfl
    obtain ⟨second, -, hsecond, -⟩ := run_recordedProject hdisk
    exact ⟨first, second, hfirst, hsecond, hrun bareConfig _ first second hs ht (by decide) rfl
      rfl rfl rfl rfl hfirst hsecond⟩

end Pipeline
end StatusBadges
