import Mathlib.Data.List.TakeWhile
import StatusBadges.Proofs.Command.Linkless
import StatusBadges.Proofs.Coverage.Deletion
import StatusBadges.Proofs.Storage.Emptying

/-!
# What a measurement leaves in order

On a disk without links a measurement changes nothing but by deleting, and deletes nothing but what
may go (`Removable`): counters, trace files, compiled tests, and the report when a new one is due.
However it ends, no trace file and no compiled test is left whose path is short enough to be looked
up (`calculate_tidies`). One whose path is too long stays (`calculate_leaves_trace`).
-/

namespace StatusBadges

namespace Coverage

open Session

/-! ## What may go -/

/-- What a measurement may delete: a counter file below the root or the compiler cache, a trace file
directly in the root, what is taken for a compiled test, and, where a report is due, its directory
with what is below. -/
inductive Removable (c : Config) (due : Prop) (d : Disk) (l : Location) (n : Node) : Prop
  | counter (p : Path) (hp : p = c.root ∨ p = c.nimCachePath) (hf : n.isFile = true)
      (h : d.WantedBelow p (fun n _ => isCounterName n) l)
  | trace (r : Location) (hr : d.tree.Leads d.here c.root r) (name : String)
      (hn : name = traceFile ∨ name = sourceTraceFile) (hf : n.isFile = true)
      (hl : l = r ++ [name.toList])
  | compiledTest (hf : n.isFile = true) (h : Swept c d l)
  | report (h : due) (hc : c.coverageReport = true) (hl : d.AtOrBelow c.htmlPath l)

/-- On a disk without links an event deletes nothing but what may go. -/
def Tidies (c : Config) (due : Prop) : Event → Prop
  | .change d t => d.tree.Linkless → d.Deletes (Removable c due d) t
  | .call _ _ => True

theorem isFile_of_ne_directory {t : Tree} (ht : t.Linkless) {l : Location} {n : Node}
    (hn : t.node? l = some n) (hdir : n ≠ .directory) : n.isFile = true := by
  cases n with
  | file content mode => rfl
  | directory => exact absurd rfl hdir
  | link target => exact absurd hn (ht l target)

theorem edits_removeIfPossible (p : Path) (d : Disk) :
    Disk.Edits (fun d t => d.Deletes (fun l n => d.Entry p l ∧ n ≠ .directory) t) d
      (removeIfPossible p d).2 := by
  unfold removeIfPossible
  cases h : d.removeFile p with
  | error cause => exact .refl d
  | ok d' =>
    obtain ⟨t, rfl, ht⟩ := Disk.deletes_removeFile h
    exact .single ht

theorem plain_of_trace {name : String} (hn : name = traceFile ∨ name = sourceTraceFile) :
    Name.isPlain name.toList = true ∧ ¬ maxNameOctets < octetCount name.toList := by
  rcases hn with rfl | rfl <;> decide

theorem permits_tidies (c : Config) (due : Prop) : Permits c (Tidies c due) where
  counters p hp d := (Disk.deletes_removeFilesBelow d p _).mono fun d t h _ =>
    h.mono fun l n _ h => .counter p hp h.1 h.2
  traces name hn d := (edits_removeIfPossible _ d).mono fun d t h ht => h.mono fun l n hnode h => by
    obtain ⟨hne, -, -, hslash, -⟩ := Name.isPlain_iff.1 (plain_of_trace hn).1
    obtain ⟨r, hr, hl⟩ := leads_of_entry hslash hne h.1
    exact .trace r hr name hn (isFile_of_ne_directory ht hnode h.2) hl
  calls _ _ _ := trivial

theorem edits_clearReport_of_due {c : Config} {due : Prop} (h : due) (hc : c.coverageReport = true)
    (d : Disk) :
    Disk.Edits (fun d t => Tidies c due (.change d t)) d (clearReport c.htmlPath d).2 := by
  unfold clearReport
  split
  · refine (Disk.deletes_removeAll d c.htmlPath).mono fun d t hdel ht => ?_
    refine hdel.mono fun l n hnode hl => ?_
    rcases hl with hl | ⟨target, rfl⟩
    · exact .report h hc hl
    · exact absurd hnode (ht l target)
  · exact .refl d

/-! ## What is left -/

/-- No trace file is in the root and no compiled test is below the tests directory, unless its path
is too long to be looked up. -/
structure Tidy (c : Config) (d : Disk) : Prop where
  traces : ∀ r name, name = traceFile ∨ name = sourceTraceFile → d.tree.Leads d.here c.root r →
    (c.root.join (.ofString name)).fits = true →
      ∀ content mode, d.tree.node? (r ++ [name.toList]) ≠ some (.file content mode)
  compiledTests : ∀ l, ¬ Swept c d l

/-- There is no file of a plain name in the directory of a path, or its path is too long. -/
def Lacks (p : Path) (n : Name) (d : Disk) : Prop :=
  ∀ r, d.tree.Leads d.here p r → (p.child n).fits = true →
    ∀ content mode, d.tree.node? (r ++ [n]) ≠ some (.file content mode)

theorem Lacks.trims {p : Path} {n : Name} {d d' : Disk} (h : Lacks p n d) (ht : d.tree.Linkless)
    (hd : Disk.Trims d d') : Lacks p n d' :=
  fun r hr hfits content mode hnode =>
    h r (hd.leads ht hr) hfits content mode (hd.shrinks _ _ hnode)

theorem trims_removeIfPossible (p : Path) {d : Disk} (hs : d.Settled) :
    Disk.Trims d (removeIfPossible p d).2 :=
  Disk.trims_of_edits (fun _ _ _ h => h.2) (edits_removeIfPossible p d) hs

theorem trims_removeCompiledTests (p : Path) {d : Disk} (hs : d.Settled) :
    Disk.Trims d (removeCompiledTests p d).2 :=
  Disk.trims_of_edits (fun _ _ n h e => by rw [e] at h; cases h.1)
    (Disk.deletes_removeFilesBelow d p isCompiledTest) hs

/-- **A file whose path can be looked up is removed.** -/
theorem lacks_removeIfPossible {d : Disk} (hs : d.Settled) (ht : d.tree.Linkless) (p : Path)
    {n : Name} (hlen : ¬ maxNameOctets < octetCount n) :
    Lacks p n (removeIfPossible (p.child n) d).2 := by
  intro r hr hfits content mode hnode
  have htrims := trims_removeIfPossible (p.child n) hs
  -- The file would have been there before, where the path of the directory led already.
  have hbefore := htrims.shrinks _ _ hnode
  have hremoved := Disk.removeFile_child ht (htrims.leads ht hr) hlen hbefore hfits
  rw [removeIfPossible, hremoved] at hnode
  have hgone : (d.tree.prune (r ++ [n])).node? (r ++ [n]) = none :=
    (Tree.node?_prune (by simp)).trans (if_pos List.prefix_rfl)
  rw [Disk.withTree, hgone] at hnode
  cases hnode

theorem not_swept_removeCompiledTests {c : Config} {d : Disk} (hs : d.Settled)
    (ht : d.tree.Linkless) (l : Location) :
    ¬ Swept c (removeCompiledTests c.testsPath d).2 l := by
  intro h
  have htrims := trims_removeCompiledTests c.testsPath hs
  obtain ⟨r, content, mode, hr, hdir, hpre, hne, hf, hwanted, hfits⟩ := h
  have hbefore : Swept c d l := ⟨r, content, mode, htrims.resolve ht hr, htrims.shrinks _ _ hdir,
    hpre, hne, htrims.shrinks _ _ hf, hwanted, hfits⟩
  rcases Disk.removeFilesBelow_cases d c.testsPath isCompiledTest with ⟨-, hno⟩ | ⟨t, e, -, hlost⟩
  · exact hno l hbefore
  · rw [removeCompiledTests, e] at hf
    exact ((hlost l).2 hbefore).2 content mode hf

/-- **Cleaning up leaves the disk tidy.** -/
theorem tidy_cleaned {c : Config} {d : Disk} (hs : d.Settled) (ht : d.tree.Linkless) :
    Tidy c (cleaned c d) := by
  have h₁ := trims_removeIfPossible (c.root.join (.ofString traceFile)) hs
  have hs₁ := h₁.settled hs
  have ht₁ := h₁.shrinks.linkless ht
  have h₂ := trims_removeIfPossible (c.root.join (.ofString sourceTraceFile)) hs₁
  have hs₂ := h₂.settled hs₁
  have ht₂ := h₂.shrinks.linkless ht₁
  have h₃ := trims_removeCompiledTests c.testsPath hs₂
  refine ⟨fun r name hn => ?_, not_swept_removeCompiledTests hs₂ ht₂⟩
  have hlacks : Lacks c.root name.toList
      (removeIfPossible (c.root.join (.ofString sourceTraceFile))
        (removeIfPossible (c.root.join (.ofString traceFile)) d).2).2 := by
    obtain ⟨-, hlen⟩ := plain_of_trace hn
    rcases hn with rfl | rfl
    · exact (lacks_removeIfPossible hs ht c.root hlen).trims ht₁ h₂
    · exact lacks_removeIfPossible hs₁ ht₁ c.root hlen
  exact hlacks.trims ht₂ h₃ r

theorem isSome_of_measured {tools : Toolbox} {c : Config} {s : Session}
    (hl : (tools.locate s.disk "lcov").isSome = true) :
    ((measure? tools c).run s).1.isSome = true ↔
      ((calculate tools c).run s).1.source = .measured := by
  rw [run_calculate_of_located c hl]
  cases ((measure? tools c).run s).1 <;> simp [ofCensus]

/-- **Without links a measurement deletes nothing but what may go, and leaves the disk tidy**,
however it ends. The report goes only where there is a measured percentage and a report is asked
for. Without the coverage tool nothing happens. -/
theorem calculate_tidies {tools : Toolbox} (htools : tools.Linkless) (c : Config) {s : Session}
    (hs : s.disk.Settled) (ht : s.disk.tree.Linkless) :
    if (tools.locate s.disk "lcov").isSome then
      (∃ events, History tools s events ((calculate tools c).run s).2 ∧
        ∀ d t, .change d t ∈ events →
          d.Deletes (Removable c (((calculate tools c).run s).1.source = .measured) d) t) ∧
      Tidy c ((calculate tools c).run s).2.disk
    else ((calculate tools c).run s).2 = s := by
  split
  · next hl =>
    have hdue := isSome_of_measured (c := c) hl
    have hfinal : ((calculate tools c).run s).2 =
        ((cleanUp c).run ((measureOnly tools c).run s).2).2 := by
      rw [run_calculate_of_located c hl, measure?_eq_measureOnly]
      rfl
    have hpercent : ((measure? tools c).run s).1 = ((measureOnly tools c).run s).1 := by
      rw [measure?_eq_measureOnly]
      rfl
    rw [hpercent] at hdue
    rw [hfinal]
    generalize ((calculate tools c).run s).1.source = source at hdue ⊢
    have hpermits := permits_tidies c (source = .measured)
    obtain ⟨before, hbefore, hallowed⟩ := history_measureOnly tools hpermits (fun _ _ => trivial) s
      fun hsome => edits_clearReport_of_due (hdue.1 hsome)
    obtain ⟨behind, hbehind, hmore⟩ := performs_cleanUp tools hpermits
      (fun d => (Disk.deletes_removeFilesBelow d c.testsPath isCompiledTest).mono fun d t h _ =>
        h.mono fun l n _ h => .compiledTest h.1 h.2) ((measureOnly tools c).run s).2
    have htidies := List.forall_mem_append.2 ⟨hallowed, hmore⟩
    have hshrinks : ∀ d t, .change d t ∈ before ++ behind → d.tree.Linkless → t.Linkless :=
      fun d t he hd => (htidies _ he hd).shrinks.linkless hd
    obtain ⟨hlast, -⟩ := hbefore.linkless htools ht fun d t he =>
      hshrinks d t (List.mem_append_left _ he)
    obtain ⟨-, hchanges⟩ := (hbefore.append hbehind).linkless htools ht hshrinks
    exact ⟨⟨before ++ behind, hbefore.append hbehind, fun d t he =>
      htidies _ he (hchanges d t he)⟩, tidy_cleaned (hbefore.settled hs) hlast⟩
  · next hl => rw [run_calculate_of_not_located c hl]

/-- A project with a trace file. -/
def tracedProject : Session where
  disk :=
    { tree :=
        { entries :=
            [(["p".toList], .directory),
              (["p".toList, traceFile.toList], .file (.text "TN:\n") 0o644)]
          distinct := by decide
          rooted := by decide
          named := by decide }
      here := [] }
  issued := []

theorem linkless_tracedProject : tracedProject.disk.tree.Linkless := by
  rw [Tree.linkless_iff]
  simp [tracedProject]

/-- Programs each of which writes a trace file into the project. -/
def tracingPrograms : Toolbox where
  locate _ program := some (.ofString program)
  run _ d _ := (.ok ⟨0, "", ""⟩,
    [d.tree.put ["p".toList, traceFile.toList] (.file (.text "TN:\n") 0o644)])
  localTime := ""

theorem linkless_tracingPrograms : tracingPrograms.Linkless := by
  intro issued d command hd t ht
  rw [List.mem_singleton.1 ht]
  exact hd.put _ (by simp)

/-- The trace files that the programs write into a project are gone in the end. -/
theorem calculate_tidies_tracedProject :
    tracingPrograms.Linkless ∧ tracedProject.disk.Settled ∧ tracedProject.disk.tree.Linkless ∧
      let final := (calculate tracingPrograms (.standard none (.ofString "p"))).run tracedProject
      (∃ events, History tracingPrograms tracedProject events final.2 ∧
        ∀ d t, .change d t ∈ events → d.Deletes
          (Removable (.standard none (.ofString "p")) (final.1.source = .measured) d) t) ∧
      Tidy (.standard none (.ofString "p")) final.2.disk := by
  have hs : tracedProject.disk.Settled := Disk.settled_of_node? rfl
  have h := calculate_tidies linkless_tracingPrograms (.standard none (.ofString "p")) hs
    linkless_tracedProject
  have hl : (tracingPrograms.locate tracedProject.disk "lcov").isSome = true := rfl
  rw [if_pos hl] at h
  exact ⟨linkless_tracingPrograms, hs, linkless_tracedProject, h⟩

/-! ## Files that stay -/

/-- A node that is there before an event is there after it. -/
def Keeps (tools : Toolbox) (l : Location) (n : Node) : Event → Prop
  | .change d t => d.tree.node? l = some n → t.node? l = some n
  | .call s command =>
    s.disk.tree.node? l = some n → (s.after tools command).disk.tree.node? l = some n

theorem keeps_of_history {tools : Toolbox} {l : Location} {n : Node} {s s' : Session}
    {events : List Event} (h : History tools s events s') (he : ∀ e ∈ events, Keeps tools l n e)
    (hn : s.disk.tree.node? l = some n) : s'.disk.tree.node? l = some n := by
  induction h with
  | nil s => exact hn
  | change t _ ih =>
    obtain ⟨hfirst, hrest⟩ := List.forall_mem_cons.1 he
    exact ih hrest (hfirst hn)
  | call command _ ih =>
    obtain ⟨hfirst, hrest⟩ := List.forall_mem_cons.1 he
    exact ih hrest (hfirst hn)

theorem keeps_of_deletes {tools : Toolbox} {l : Location} {n : Node}
    {allowed : Disk → Location → Node → Prop}
    (ha : ∀ d, d.tree.node? l = some n → ¬ allowed d l n) {d d' : Disk}
    (h : Disk.Edits (fun d t => d.Deletes (allowed d) t) d d') :
    Disk.Edits (fun d t => Keeps tools l n (.change d t)) d d' := by
  refine h.mono fun d t hdel hn => ?_
  cases ht : t.node? l with
  | none => exact absurd (hdel.allowed hn ht) (ha d hn)
  | some m => rw [← hn, hdel.shrinks l m ht]

section Keeps

variable {tools : Toolbox} {c : Config} {l : Location} {n : Node}

theorem permits_keeps (hlast : l.getLast? = some traceFile.toList)
    (hlong : ∀ name, name = traceFile ∨ name = sourceTraceFile →
      (c.root.join (.ofString name)).fits = false)
    (hcalls : ∀ s command, Keeps tools l n (.call s command)) : Permits c (Keeps tools l n) where
  counters p _ d := by
    refine keeps_of_deletes (fun d _ h => ?_) (Disk.deletes_removeFilesBelow d p _)
    obtain ⟨-, r, content, mode, -, -, -, -, -, hname, -⟩ := h
    rw [hlast] at hname
    exact absurd hname (by decide : ¬ isCounterName traceFile.toList = true)
  traces name hn d := by
    refine keeps_of_deletes (fun d _ h => ?_) (edits_removeIfPossible _ d)
    obtain ⟨⟨directory, last, hs, -⟩, -⟩ := h
    obtain ⟨before, -, hcheck, -⟩ := Disk.slot_eq_ok hs
    obtain ⟨-, -, hfits⟩ := Disk.checkText_iff.1 hcheck
    rw [hlong name hn] at hfits
    cases hfits
  calls s command _ := hcalls s command

/-- **A trace file whose path is too long stays**, if the commands leave it alone and nothing is
measured. -/
theorem keeps_long_trace (hlast : l.getLast? = some traceFile.toList)
    (hlong : ∀ name, name = traceFile ∨ name = sourceTraceFile →
      (c.root.join (.ofString name)).fits = false)
    (hcalls : ∀ s command, Keeps tools l n (.call s command)) (hx : n.isExecutable = false)
    {s : Session} (hnone : ((measureOnly tools c).run s).1 = none)
    (hn : s.disk.tree.node? l = some n) :
    ((measure? tools c).run s).2.disk.tree.node? l = some n := by
  have hpermits := permits_keeps hlast hlong hcalls
  obtain ⟨before, hbefore, hkeeps⟩ := history_measureOnly tools hpermits hcalls s
    fun hsome => by rw [hnone] at hsome; cases hsome
  have hsweep (d : Disk) : Disk.Edits (fun d t => Keeps tools l n (.change d t)) d
      (removeCompiledTests c.testsPath d).2 := by
    refine keeps_of_deletes (fun d hnode h => ?_) (Disk.deletes_removeFilesBelow d _ _)
    obtain ⟨-, r, content, mode, -, -, -, -, hfile, hwanted, -⟩ := h
    rw [hnode] at hfile
    cases hfile
    simp [isCompiledTest, hx] at hwanted
  obtain ⟨behind, hbehind, hmore⟩ := performs_cleanUp tools hpermits hsweep
    ((measureOnly tools c).run s).2
  have hfinal : ((measure? tools c).run s).2 =
      ((cleanUp c).run ((measureOnly tools c).run s).2).2 := by
    rw [measure?_eq_measureOnly]
    rfl
  rw [hfinal]
  exact keeps_of_history hbehind hmore (keeps_of_history hbefore hkeeps hn)

end Keeps

/-- A directory by a path with so many parts behind its name. -/
def padded (part : List Char) (n : Nat) : Path :=
  ⟨'p' :: (List.replicate n ('/' :: part)).flatten⟩

theorem octetCount_padded (part : List Char) (n : Nat) :
    octetCount (padded part n).chars = 1 + n * (1 + octetCount part) := by
  have hslash : octetCount ('/' :: part) = 1 + octetCount part := rfl
  have hparts (n : Nat) : octetCount (List.replicate n ('/' :: part)).flatten =
      n * (1 + octetCount part) := by
    induction n with
    | zero => simp [octetCount]
    | succ n ih =>
      rw [List.replicate_succ, List.flatten_cons, octetCount_append, ih, hslash, Nat.succ_mul,
        Nat.add_comm]
  have hp : octetCount ['p'] = 1 := rfl
  have e : (padded part n).chars = ['p'] ++ (List.replicate n ('/' :: part)).flatten := rfl
  rw [e, octetCount_append, hp, hparts]

section Padded

variable {part : List Char} (hidle : Path.isIdle part = true)
include hidle

theorem pieces_padded (n : Nat) : (padded part n).pieces = ['p'] :: List.replicate n part := by
  have hslash : '/' ∉ part := by
    rcases (by simpa [Path.isIdle] using hidle : part = [] ∨ part = ['.']) with rfl | rfl <;> simp
  have hsplit (n : Nat) (front : List Char) :
      Text.split '/' (front ++ (List.replicate n ('/' :: part)).flatten) =
        Text.split '/' front ++ List.replicate n part := by
    induction n generalizing front with
    | zero => simp
    | succ n ih =>
      rw [List.replicate_succ, List.flatten_cons, List.cons_append, Text.split_append, ih part,
        Text.split_eq_singleton hslash]
      rfl
  exact hsplit n ['p']

theorem components_padded (n : Nat) : (padded part n).components = [.name ['p']] := by
  have habs : (padded part n).isAbsolute = false := rfl
  have hnone : Path.Component.ofPiece? part = none := if_pos hidle
  have hfirst : Path.Component.ofPiece? ['p'] = some (.name ['p']) := rfl
  simp [Path.components, Path.startsHere, pieces_padded hidle, habs, hnone, hfirst]

/-- Parts that say nothing lead to the directory itself. -/
theorem walk_padded {t : Tree} (hp : t.node? [['p']] = some .directory) (n : Nat) :
    t.walk [] (padded part n).steps = .arrived [['p']] := by
  obtain ⟨dots, e, hdots⟩ : ∃ dots, (padded part n).steps = ['p'] :: dots ∧
      ∀ x ∈ dots, x = ['.'] := by
    have hparts : (padded part n).parts = ['p'] :: (List.replicate n part).filter (· != []) := by
      rw [Path.parts, pieces_padded hidle]
      rfl
    rw [Path.steps, hparts]
    refine ⟨_, List.cons_append, fun x hx => ?_⟩
    rcases List.mem_append.1 hx with hx | hx
    · obtain ⟨hmem, hne⟩ := List.mem_filter.1 hx
      obtain rfl := (List.mem_replicate.1 hmem).2
      have hne : x ≠ [] := by simpa using hne
      simpa [Path.isIdle, hne] using hidle
    · split at hx
      · exact List.mem_singleton.1 hx
      · cases hx
  have hlen : ¬ maxNameOctets < octetCount ['p'] := by decide
  have hremoved : Location.isRemoved [] = false := rfl
  have hrest := t.walk_dropWhile_dot [['p']] dots
  have hnil : dots.dropWhile (· = ['.']) = [] :=
    List.dropWhile_eq_nil_iff.2 fun x hx => decide_eq_true (hdots x hx)
  rw [hnil] at hrest
  rw [e]
  simpa [Tree.walk, hp, hlen, hremoved] using hrest.symm

theorem leads_padded {t : Tree} (ht : t.Linkless) (hp : t.node? [['p']] = some .directory)
    (n : Nat) : t.Leads [] (padded part n) [['p']] := by
  rw [Tree.Leads, ht.reaches_iff]
  exact walk_padded hidle hp n

theorem resolve_padded {d : Disk} (ht : d.tree.Linkless) (hhere : d.here = [])
    (hp : d.tree.node? [['p']] = some .directory) {n : Nat} (hfits : (padded part n).fits = true) :
    d.resolve (padded part n) = .ok [['p']] := by
  have hnul : '\x00' ∉ (padded part n).chars := by
    rcases (by simpa [Path.isIdle] using hidle : part = [] ∨ part = ['.']) with rfl | rfl <;>
      simp [padded]
  have hstart : d.start (padded part n) = [] := hhere
  rw [Disk.resolve_eq_ok_iff_walk ht, hstart]
  exact ⟨Disk.checkText_iff.2 ⟨hnul, List.cons_ne_nil _ _, hfits⟩, walk_padded hidle hp n⟩

end Padded

/-- A joined path is too long when its two paths are. -/
theorem not_fits_join {p q : Path} (hq : q.isAbsolute = false)
    (hlen : maxPathOctets < octetCount p.chars + octetCount q.chars) :
    (p.join q).fits = false := by
  have hjoin := Path.octetCount_join (p := p) hq
  simp only [Path.fits, decide_eq_false_iff_not]
  omega

/-- A directory by a path with so many dots behind its name. -/
def dotted (n : Nat) : Path := ⟨'p' :: (List.replicate n ['/', '.']).flatten⟩

theorem octetCount_dotted (n : Nat) : octetCount (dotted n).chars = 1 + n * 2 :=
  octetCount_padded ['.'] n

theorem components_dotted (n : Nat) : (dotted n).components = [.name ['p']] :=
  components_padded rfl n

/-- Dots lead to the directory itself. -/
theorem leads_dotted {t : Tree} (ht : t.Linkless) (hp : t.node? [['p']] = some .directory)
    (n : Nat) : t.Leads [] (dotted n) [['p']] :=
  leads_padded rfl ht hp n

theorem linkless_silent : Toolbox.silent.Linkless := by
  intro issued d command _ t ht
  cases ht

/-- No file can be looked up in a directory by the path with so many dots. -/
theorem not_fits_join_dotted {q : Path} (hq : q.isAbsolute = false)
    (hlen : 13 ≤ octetCount q.chars) : ((dotted 2041).join q).fits = false := by
  refine not_fits_join hq ?_
  rw [octetCount_dotted, maxPathOctets]
  omega

theorem keeps_tracedProject {c : Config} (hlong : ∀ name, name = traceFile ∨
      name = sourceTraceFile → (c.root.join (.ofString name)).fits = false) :
    ((calculate Toolbox.silent c).run tracedProject).2.disk.tree.node?
        (["p".toList] ++ [traceFile.toList]) = some (.file (.text "TN:\n") 0o644) := by
  have hcalls (s : Session) (command : Command) : Keeps Toolbox.silent
      (["p".toList] ++ [traceFile.toList]) (.file (.text "TN:\n") 0o644) (.call s command) :=
    fun h => h
  have hnone : ((measureOnly Toolbox.silent c).run tracedProject).1 = none := by
    rw [percent_measureOnly]
    rfl
  rw [run_calculate_of_located c rfl]
  exact keeps_long_trace rfl hlong hcalls rfl hnone rfl

/-- A trace file is left by a measurement when the path of the root is so long that none can be
looked up through it. -/
theorem calculate_leaves_trace :
    (∀ p ∈ [dotted 2041, Config.defaultTestsDir, Config.defaultHtmlDir,
        Config.defaultNimCache none], .up ∉ p.components) ∧
      (dotted 2041).fits = true ∧ tracedProject.disk.tree.Linkless ∧ Toolbox.silent.Linkless ∧
      (Toolbox.silent.locate tracedProject.disk "lcov").isSome = true ∧
      tracedProject.disk.tree.Leads [] (dotted 2041) ["p".toList] ∧
      ((calculate Toolbox.silent (.standard none (dotted 2041))).run
          tracedProject).2.disk.tree.node? (["p".toList] ++ [traceFile.toList]) =
        some (.file (.text "TN:\n") 0o644) := by
  refine ⟨?_, ?_, linkless_tracedProject, linkless_silent, rfl,
    leads_dotted linkless_tracedProject rfl _, ?_⟩
  · intro p hp
    simp only [List.mem_cons, List.not_mem_nil, or_false] at hp
    rcases hp with rfl | rfl | rfl | rfl
    · simp [components_dotted]
    all_goals decide
  · simp [Path.fits, octetCount_dotted, maxPathOctets]
  · refine keeps_tracedProject fun name hn => ?_
    rcases hn with rfl | rfl <;> exact not_fits_join_dotted rfl (by decide)

end Coverage
end StatusBadges
