import Mathlib.Data.List.Nodup
import StatusBadges.Proofs.Coverage.Census
import StatusBadges.Proofs.Coverage.Cleaning
import StatusBadges.Proofs.Sources.Walk
import StatusBadges.Proofs.Text

/-!
# What each source adds to the census

A source has one role. Below the tests directory it counts its test blocks if its name begins with
`t_`, and elsewhere it counts its declarations if its name does not mention tests, in whatever way
characters beyond ASCII are put in lower case (`mentionsTest_iff_of_lowers`). The census adds up
what the sources of each role count (`sums_by_role`), as far as they can be read: a source by a path
that is too long is listed, but counts nothing (`passes_over_long_source`).
-/

namespace StatusBadges

/-- The names go through the tests directory, which is given from the root. Dots in its path say
nothing. -/
def Config.InTests (c : Config) (names : List Name) : Prop := c.testsDir.dotless <+: names

/-- The names lead from the directory `r` to a file with this text. Its owner may read it, and its
path behind that of the root can be looked up. -/
structure Disk.Reads (d : Disk) (root : Path) (r : Location) (names : List Name) (text : String) :
    Prop where
  file : ∃ mode, d.tree.node? (r ++ names) = some (.file (.text text) mode) ∧
    Node.mayRead mode = true
  short : Short names
  fits : (root.join (.ofNames names)).fits = true

theorem Disk.readText_join_iff {d : Disk} {root : Path} {r : Location} {names : List Name}
    {text : String} {content : Content} {mode : Nat} (hroot : d.resolve root = .ok r)
    (hr : d.tree.node? r = some .directory) (hne : names ≠ [])
    (hn : d.tree.node? (r ++ names) = some (.file content mode)) :
    d.readText (root.join (.ofNames names)) = .ok text ↔ d.Reads root r names text := by
  have hlink : ∀ target, Node.file content mode ≠ .link target := fun _ e => by cases e
  rw [readText_eq_ok]
  constructor
  · intro h
    obtain ⟨mode', hfile, hmay⟩ := h
    obtain ⟨m, hm, hfound⟩ := node?_eq_file_iff.1 hfile
    have hreach := (Tree.leads_join_ofNames_iff (leads_of_resolve hroot) (Tree.found?_of_node? hr)
      (Tree.plain_of_node? hn) m).1 (leads_of_resolve hm)
    obtain ⟨hshort, rfl⟩ := (Tree.reaches_names_iff hn hlink).1 hreach
    obtain ⟨-, -, hfits⟩ := checkText_iff.1 (resolve_eq_ok.1 hm).1
    exact ⟨⟨mode', hfound, hmay⟩, hshort, hfits⟩
  · intro h
    obtain ⟨mode', hfile, hmay⟩ := h.file
    refine ⟨mode', ?_, hmay⟩
    exact node?_of_resolve (resolve_join_ofNames hroot hr hne hn hlink h.short h.fits) hfile

namespace Census

open Coverage

/-! ## Names that mention tests -/

theorem mentionsTest_iff {n : Name} :
    mentionsTest n = true ↔ "test".toList <:+: n.map Char.toLower :=
  Text.occurs_iff

/-- What a character becomes in lower case, as far as it matters to the word `test`: a character of
ASCII becomes its small letter, and any other becomes characters that are not in the word. -/
structure Lowers (c : Char) (small : List Char) : Prop where
  ascii : c.toNat < 128 → small = [c.toLower]
  other : ¬ c.toNat < 128 → small ≠ [] ∧ ∀ x ∈ small, x ∉ "test".toList

theorem lowers_toLower (c : Char) : Lowers c [c.toLower] := by
  refine ⟨fun _ => rfl, fun h => ⟨by simp, ?_⟩⟩
  have hsame : c.toLower = c := by
    have hge : (128 : UInt32) ≤ c.val := UInt32.le_iff_toNat_le.2 (Nat.not_lt.1 h)
    refine dif_neg fun hcapital => ?_
    exact absurd (UInt32.le_trans hge hcapital.2) (by decide)
  intro x hx hmem
  rw [List.mem_singleton.1 hx, hsame] at hmem
  have hascii : "test".toList.all (·.toNat < 128) = true := by decide
  exact h (of_decide_eq_true (List.all_eq_true.1 hascii c hmem))

theorem Lowers.exists_cons {c : Char} {small : List Char} (h : Lowers c small) :
    ∃ first behind, small = first :: behind ∧ ∀ x ∈ behind, x ∉ "test".toList := by
  by_cases hascii : c.toNat < 128
  · exact ⟨c.toLower, [], h.ascii hascii, by simp⟩
  · obtain ⟨hne, hno⟩ := h.other hascii
    obtain ⟨first, behind, rfl⟩ := List.exists_cons_of_ne_nil hne
    exact ⟨first, behind, rfl, fun x hx => hno x (List.mem_cons_of_mem first hx)⟩

section Lowered

variable {n : Name} {smalls : List (List Char)} (h : List.Forall₂ Lowers n smalls)
include h

theorem prefix_lowered_iff {word : List Char} (hword : ∀ x ∈ word, x ∈ "test".toList) :
    word <+: n.map Char.toLower ↔ word <+: smalls.flatten := by
  induction h generalizing word with
  | nil => rfl
  | @cons c small n smalls hc _ ih =>
    cases word with
    | nil => simp
    | cons x word =>
      obtain ⟨hx, hrest⟩ := List.forall_mem_cons.1 hword
      by_cases hascii : c.toNat < 128
      · rw [hc.ascii hascii, List.map_cons, List.flatten_cons, List.singleton_append,
          List.cons_prefix_cons, List.cons_prefix_cons, ih hrest]
      · obtain ⟨hne, hno⟩ := hc.other hascii
        obtain ⟨y, small, rfl⟩ := List.exists_cons_of_ne_nil hne
        have hlow := (lowers_toLower c).other hascii
        rw [List.map_cons, List.flatten_cons, List.cons_append, List.cons_prefix_cons,
          List.cons_prefix_cons]
        refine iff_of_false ?_ ?_
        · intro h
          exact hlow.2 _ List.mem_cons_self (h.1 ▸ hx)
        · intro h
          exact hno _ List.mem_cons_self (h.1 ▸ hx)

/-- However characters beyond ASCII are written in lower case, names that mention tests are the
same. -/
theorem mentionsTest_iff_of_lowers :
    mentionsTest n = true ↔ "test".toList <:+: smalls.flatten := by
  rw [mentionsTest_iff]
  have hlater {front rest : List Char} (hfront : ∀ x ∈ front, x ∉ "test".toList) :
      "test".toList <:+: front ++ rest ↔ "test".toList <:+: rest := by
    induction front with
    | nil => rfl
    | cons y front ih =>
      obtain ⟨hy, hfront⟩ := List.forall_mem_cons.1 hfront
      rw [List.cons_append, List.infix_cons_iff, ih hfront]
      refine or_iff_right fun h => hy ?_
      exact (List.cons_prefix_cons.1 h).1 ▸ List.mem_cons_self
  induction h with
  | nil => rfl
  | @cons c small n smalls hc hmore ih =>
    have hprefix : "test".toList <+: (c :: n).map Char.toLower ↔
        "test".toList <+: (small :: smalls).flatten :=
      prefix_lowered_iff (hmore.cons hc) fun _ hx => hx
    obtain ⟨y, behind, rfl, hbehind⟩ := hc.exists_cons
    rw [List.map_cons, List.flatten_cons, List.cons_append] at hprefix ⊢
    rw [List.infix_cons_iff, List.infix_cons_iff, hlater hbehind]
    exact or_congr hprefix ih

end Lowered

/-! ## The roles of sources -/

/-- A source that counts test blocks, and its text. -/
structure CountsBlocks (d : Disk) (c : Config) (r : Location) (names : List Name)
    (text : String) : Prop where
  listed : .ofNames names ∈ Sources.nimFiles d c.root
  reads : d.Reads c.root r names text
  inTests : c.InTests names
  named : ∃ n, names.getLast? = some n ∧ ['t', '_'] <+: n

/-- A source that counts declarations, and its text. -/
structure CountsDeclarations (d : Disk) (c : Config) (r : Location) (names : List Name)
    (text : String) : Prop where
  listed : .ofNames names ∈ Sources.nimFiles d c.root
  reads : d.Reads c.root r names text
  outside : ¬ c.InTests names
  named : ∃ n, names.getLast? = some n ∧ ¬ "test".toList <:+: n.map Char.toLower

theorem role_eq_test_iff {inTests : Bool} {n : Name} :
    role inTests n = .test ↔ inTests = true ∧ ['t', '_'] <+: n := by
  cases inTests with
  | false => cases h : mentionsTest n <;> simp [role, h]
  | true =>
    rw [← List.isPrefixOf_iff_prefix]
    cases h : ['t', '_'].isPrefixOf n <;> simp [role, h]

theorem role_eq_source_iff {inTests : Bool} {n : Name} :
    role inTests n = .source ↔ inTests = false ∧ ¬ "test".toList <:+: n.map Char.toLower := by
  rw [← mentionsTest_iff]
  cases inTests with
  | false => cases h : mentionsTest n <;> simp [role, h]
  | true => cases h : ['t', '_'].isPrefixOf n <;> simp [role, h]

/-- The role of the source to which the names lead. -/
def roleOf (c : Config) (names : List Name) : Role :=
  role ((c.root.join (.ofNames names)).startsWith c.testsPath)
    ((Path.ofNames names).fileName?.getD [])

section Roles

variable {c : Config} (hroot : c.root.chars ≠ []) (hrelative : c.testsDir.isAbsolute = false)
  (hup : .up ∉ c.testsDir.components)
include hroot hrelative hup

theorem startsWith_testsPath_iff {names : List Name} (h : Path.Plain names) :
    (c.root.join (.ofNames names)).startsWith c.testsPath = true ↔ c.InTests names := by
  have htests : c.testsPath = c.root.join c.testsDir := Config.resolve_of_relative hrelative
  rw [htests]
  exact Path.startsWith_join_iff hroot hrelative hup h

theorem roleOf_eq_test_iff {names : List Name} (h : Path.Plain names) (hne : names ≠ []) :
    roleOf c names = .test ↔
      c.InTests names ∧ ∃ n, names.getLast? = some n ∧ ['t', '_'] <+: n := by
  obtain ⟨above, n, rfl⟩ : ∃ above n, names = above ++ [n] := by
    simpa using (List.eq_nil_or_concat names).resolve_left hne
  rw [roleOf, role_eq_test_iff, startsWith_testsPath_iff hroot hrelative hup h,
    Path.fileName?_ofNames h]
  simp

theorem roleOf_eq_source_iff {names : List Name} (h : Path.Plain names) (hne : names ≠ []) :
    roleOf c names = .source ↔ ¬ c.InTests names ∧
      ∃ n, names.getLast? = some n ∧ ¬ "test".toList <:+: n.map Char.toLower := by
  obtain ⟨above, n, rfl⟩ : ∃ above n, names = above ++ [n] := by
    simpa using (List.eq_nil_or_concat names).resolve_left hne
  rw [roleOf, role_eq_source_iff, ← Bool.not_eq_true,
    startsWith_testsPath_iff hroot hrelative hup h, Path.fileName?_ofNames h]
  simp

end Roles

/-! ## Adding up -/

/-- The sources with a role that can be read, and their texts. -/
def counted (d : Disk) (c : Config) (wanted : Role) : List (List Name × String) :=
  (Sources.sourceNames d c.root).filterMap fun names =>
    if roleOf c names = wanted then
      (d.readText (c.root.join (.ofNames names))).toOption.map fun text => (names, text)
    else none

theorem mem_counted_iff {d : Disk} {c : Config} {wanted : Role} {names : List Name}
    {text : String} : (names, text) ∈ counted d c wanted ↔
      (names ∈ Sources.sourceNames d c.root ∧
        d.readText (c.root.join (.ofNames names)) = .ok text) ∧ roleOf c names = wanted := by
  have hok (p : Path) (text : String) :
      (d.readText p).toOption = some text ↔ d.readText p = .ok text := by
    cases d.readText p <;> simp [Except.toOption]
  simp only [counted, List.mem_filterMap, Option.ite_none_right_eq_some, Option.map_eq_some_iff,
    hok, Prod.mk.injEq]
  constructor
  · intro h
    obtain ⟨_, hmem, hrole, _, hread, rfl, rfl⟩ := h
    exact ⟨⟨hmem, hread⟩, hrole⟩
  · intro h
    obtain ⟨⟨hmem, hread⟩, hrole⟩ := h
    exact ⟨names, hmem, hrole, text, hread, rfl, rfl⟩

theorem nodup_counted (d : Disk) (c : Config) (wanted : Role) :
    ((counted d c wanted).map (·.1)).Nodup := by
  rw [counted, List.map_filterMap]
  refine (Sources.nodup_sourceNames d c.root).filterMap ?_
  intro a b names ha hb
  have hname {x : List Name} (hx : names ∈ Option.map (·.1) (if roleOf c x = wanted then
      (d.readText (c.root.join (.ofNames x))).toOption.map fun text => (x, text) else none)) :
      x = names := by
    simp only [Option.mem_def, Option.map_eq_some_iff, Option.ite_none_right_eq_some] at hx
    obtain ⟨_, ⟨-, _, -, rfl⟩, rfl⟩ := hx
    rfl
  exact (hname ha).trans (hname hb).symm

theorem disjoint_counted {d : Disk} {c : Config} {a b : Role} (h : a ≠ b) :
    ((counted d c a).map (·.1)).Disjoint ((counted d c b).map (·.1)) := by
  intro names ha hb
  obtain ⟨x, hx, rfl⟩ := List.mem_map.1 ha
  obtain ⟨y, hy, e⟩ := List.mem_map.1 hb
  obtain ⟨-, hrole⟩ := mem_counted_iff.1 hx
  obtain ⟨-, hrole'⟩ := mem_counted_iff.1 hy
  rw [e] at hrole'
  exact h (hrole.symm.trans hrole')

theorem sum_filterMap {α β : Type} (f : α → Option β) (g : β → Nat) (l : List α) :
    ((l.filterMap f).map g).sum = (l.map fun a => ((f a).map g).getD 0).sum := by
  induction l with
  | nil => rfl
  | cons a l ih =>
    rw [List.filterMap_cons, List.map_cons, List.sum_cons, ← ih]
    cases f a <;> simp

/-- Only sources of one role matter to a count for which the others count nothing. -/
theorem sum_counted (count : Census → Nat) (hzero : count ⟨0, 0⟩ = 0)
    (hadd : ∀ a b, count (add a b) = count a + count b) {d : Disk} {c : Config} {wanted : Role}
    {weight : List Char → Nat} (hcount : ∀ names, count (ofSource d c (.ofNames names)) =
      if roleOf c names = wanted then
        ((d.readText (c.root.join (.ofNames names))).toOption.map
          fun text => weight text.toList).getD 0
      else 0) :
    count (ofProject d c) = ((counted d c wanted).map fun e => weight e.2.toList).sum := by
  have hperm := ((Sources.sourceNames d c.root).map Path.ofNames).mergeSort_perm Path.le
  rw [sum_ofProject hzero hadd, Sources.nimFiles_eq_sort, Path.sort, (hperm.map _).sum_nat,
    List.map_map, counted, sum_filterMap]
  refine congrArg List.sum (List.map_congr_left fun names _ => (hcount names).trans ?_)
  split
  · rw [Option.map_map]
    rfl
  · rfl

theorem testBlocks_eq_sum (d : Disk) (c : Config) : (ofProject d c).testBlocks =
    ((counted d c .test).map fun e => TestSuite.countBlocks e.2.toList).sum := by
  refine sum_counted (·.testBlocks) rfl (fun _ _ => rfl) fun names => ?_
  rw [ofSource, ← roleOf]
  cases roleOf c names <;> cases d.readText (c.root.join (.ofNames names)) <;> rfl

theorem declarations_eq_sum (d : Disk) (c : Config) : (ofProject d c).declarations =
    ((counted d c .source).map fun e => Coverage.countDeclarations e.2.toList).sum := by
  refine sum_counted (·.declarations) rfl (fun _ _ => rfl) fun names => ?_
  rw [ofSource, ← roleOf]
  cases roleOf c names <;> cases d.readText (c.root.join (.ofNames names)) <;> rfl

section Project

variable {d : Disk} {c : Config} {r : Location} (hroot : d.resolve c.root = .ok r)
  (hr : d.tree.node? r = some .directory)
include hroot hr

/-- Sources by their names, with their texts. -/
theorem listed_and_reads_iff {names : List Name} {text : String} :
    (.ofNames names ∈ Sources.nimFiles d c.root ∧ d.Reads c.root r names text) ↔
      names ∈ Sources.sourceNames d c.root ∧
        d.readText (c.root.join (.ofNames names)) = .ok text := by
  constructor
  · intro h
    obtain ⟨hlisted, hreads⟩ := h
    obtain ⟨mode, hnode, -⟩ := hreads.file
    obtain ⟨other, e, hsource, hentered⟩ := (Sources.mem_nimFiles_iff hroot hr _).1 hlisted
    obtain rfl := Path.ofNames_injective (Tree.plain_of_node? hnode) hsource.plain
      (congrArg Path.components e)
    exact ⟨(Sources.mem_sourceNames_iff hroot hr).2 ⟨hsource, hentered⟩,
      (Disk.readText_join_iff hroot hr hsource.ne_nil hnode).2 hreads⟩
  · intro h
    obtain ⟨hmem, hread⟩ := h
    obtain ⟨hsource, hentered⟩ := (Sources.mem_sourceNames_iff hroot hr).1 hmem
    obtain ⟨content, mode, hnode⟩ := hsource.file
    exact ⟨(Sources.mem_nimFiles_iff hroot hr _).2 ⟨names, rfl, hsource, hentered⟩,
      (Disk.readText_join_iff hroot hr hsource.ne_nil hnode).1 hread⟩

/-- What is counted in a role, given what the role says about names. -/
theorem mem_counted_iff_of_role {wanted : Role} {p : List Name → Prop}
    (hrole : ∀ {names}, Path.Plain names → names ≠ [] → (roleOf c names = wanted ↔ p names))
    {names : List Name} {text : String} : (names, text) ∈ counted d c wanted ↔
      (.ofNames names ∈ Sources.nimFiles d c.root ∧ d.Reads c.root r names text) ∧ p names := by
  rw [mem_counted_iff, listed_and_reads_iff hroot hr]
  refine and_congr_right fun hfound => ?_
  have hsource := ((Sources.mem_sourceNames_iff hroot hr).1 hfound.1).1
  exact hrole hsource.plain hsource.ne_nil

variable (hrelative : c.testsDir.isAbsolute = false) (hup : .up ∉ c.testsDir.components)
include hrelative hup

theorem mem_counted_test_iff {names : List Name} {text : String} :
    (names, text) ∈ counted d c .test ↔ CountsBlocks d c r names text := by
  obtain ⟨-, hchars, -⟩ := Disk.checkText_iff.1 (Disk.resolve_eq_ok.1 hroot).1
  rw [mem_counted_iff_of_role hroot hr (roleOf_eq_test_iff hchars hrelative hup)]
  constructor
  · intro h
    exact ⟨h.1.1, h.1.2, h.2.1, h.2.2⟩
  · intro h
    exact ⟨⟨h.listed, h.reads⟩, h.inTests, h.named⟩

theorem mem_counted_source_iff {names : List Name} {text : String} :
    (names, text) ∈ counted d c .source ↔ CountsDeclarations d c r names text := by
  obtain ⟨-, hchars, -⟩ := Disk.checkText_iff.1 (Disk.resolve_eq_ok.1 hroot).1
  rw [mem_counted_iff_of_role hroot hr (roleOf_eq_source_iff hchars hrelative hup)]
  constructor
  · intro h
    exact ⟨h.1.1, h.1.2, h.2.1, h.2.2⟩
  · intro h
    exact ⟨⟨h.listed, h.reads⟩, h.outside, h.named⟩

end Project

/-- A directory beside the tests directory is not in it, however much of its name it shares. -/
theorem not_inTests_beside {c : Config} {above : List Name} {n m : Name}
    (h : c.testsDir.dotless = above ++ [n]) (hne : m ≠ n) (more : List Name) :
    ¬ c.InTests (above ++ m :: more) := by
  rw [Config.InTests, h, List.prefix_append_right_inj, List.cons_prefix_cons]
  intro hsame
  exact hne hsame.1.symm

/-- **The census adds up what the sources of each role count.** A source with a text has at most one
of the two roles, and is in the sum of that role once; all other sources count nothing. Directories
beside the tests directory are not in it. -/
theorem sums_by_role {d : Disk} {c : Config} {r : Location} (hroot : d.resolve c.root = .ok r)
    (hr : d.tree.node? r = some .directory) (hrelative : c.testsDir.isAbsolute = false)
    (hup : .up ∉ c.testsDir.components) :
    (∃ tests others : List (List Name × String),
      (∀ names text, (names, text) ∈ tests ↔ CountsBlocks d c r names text) ∧
      (∀ names text, (names, text) ∈ others ↔ CountsDeclarations d c r names text) ∧
      (tests.map (·.1)).Nodup ∧ (others.map (·.1)).Nodup ∧
      (tests.map (·.1)).Disjoint (others.map (·.1)) ∧
      (ofProject d c).testBlocks =
        (tests.map fun e => TestSuite.countBlocks e.2.toList).sum ∧
      (ofProject d c).declarations =
        (others.map fun e => Coverage.countDeclarations e.2.toList).sum) ∧
    ∀ above n m more, c.testsDir.dotless = above ++ [n] → m ≠ n →
      ¬ c.InTests (above ++ m :: more) := by
  refine ⟨⟨counted d c .test, counted d c .source, ?_, ?_, nodup_counted d c _,
    nodup_counted d c _, disjoint_counted (by decide), testBlocks_eq_sum d c,
    declarations_eq_sum d c⟩, fun above n m more h hne => not_inTests_beside h hne more⟩
  · intro names text
    exact mem_counted_test_iff hroot hr hrelative hup
  · intro names text
    exact mem_counted_source_iff hroot hr hrelative hup

/-- A project with a test below its tests directory, a source beside it that has the name of a test,
and others that count nothing. -/
def sortedProject : Disk where
  tree :=
    { entries :=
        [(["p".toList], .directory), (["p".toList, "tests".toList], .directory),
          (["p".toList, "tests".toList, "unit".toList], .directory),
          (["p".toList, "tests".toList, "unit".toList, "t_a.nim".toList],
            .file (.text "block:\n  discard\n") 0o644),
          (["p".toList, "tests".toList, "a.nim".toList],
            .file (.text "block:\nproc a() = discard\n") 0o644),
          (["p".toList, "tests2".toList], .directory),
          (["p".toList, "tests2".toList, "t_b.nim".toList],
            .file (.text "proc a() = discard\n") 0o644),
          (["p".toList, "myTests.nim".toList], .file (.text "proc a() = discard\n") 0o644)]
      distinct := by decide
      rooted := by decide
      named := by decide }
  here := []

/-- The configuration of the project, whose tests directory is given with a dot. -/
def sortedConfig : Config :=
  { Config.standard none (.ofString "p") with testsDir := .ofString "./tests/" }

theorem resolve_sortedConfig : sortedProject.resolve sortedConfig.root = .ok ["p".toList] := by
  decide

theorem mem_of_reads_sortedProject {names : List Name} {text : String}
    (h : sortedProject.Reads sortedConfig.root ["p".toList] names text) : (names, text) ∈
      [(["tests".toList, "unit".toList, "t_a.nim".toList], "block:\n  discard\n"),
        (["tests".toList, "a.nim".toList], "block:\nproc a() = discard\n"),
        (["tests2".toList, "t_b.nim".toList], "proc a() = discard\n"),
        (["myTests.nim".toList], "proc a() = discard\n")] := by
  obtain ⟨mode, hnode, -⟩ := h.file
  rw [Tree.node?_eq_some_iff (by simp)] at hnode
  simp only [sortedProject, List.mem_cons, Prod.mk.injEq, reduceCtorEq, and_false, false_or,
    List.not_mem_nil, or_false, Node.file.injEq, Content.text.injEq] at hnode
  rcases hnode with ⟨e, rfl, -⟩ | ⟨e, rfl, -⟩ | ⟨e, rfl, -⟩ | ⟨e, rfl, -⟩ <;>
    obtain ⟨-, rfl⟩ := List.cons.inj e <;> simp

theorem countsBlocks_sortedProject_iff (names : List Name) (text : String) :
    CountsBlocks sortedProject sortedConfig ["p".toList] names text ↔
      (names, text) = (["tests".toList, "unit".toList, "t_a.nim".toList],
        "block:\n  discard\n") := by
  constructor
  · intro h
    have hmem := mem_of_reads_sortedProject h.reads
    have hin := h.inTests
    obtain ⟨n, hn, hnamed⟩ := h.named
    simp only [List.mem_cons, List.not_mem_nil, or_false] at hmem
    rcases hmem with e | e | e | e <;> cases e
    · rfl
    · cases hn
      exact absurd hnamed (by decide)
    · exact absurd hin (by unfold Config.InTests; decide)
    · exact absurd hin (by unfold Config.InTests; decide)
  · intro h
    cases h
    refine ⟨(Sources.mem_nimFiles_iff resolve_sortedConfig rfl _).2 ⟨_, rfl, ?_, rfl⟩, ?_, ?_,
      _, rfl, by decide⟩
    · exact ⟨⟨_, _, rfl⟩, ⟨["tests".toList, "unit".toList], "t_a".toList, by decide, by decide⟩,
        by decide⟩
    · exact ⟨⟨_, rfl, rfl⟩, by unfold Short; decide, rfl⟩
    · unfold Config.InTests
      decide

theorem countsDeclarations_sortedProject_iff (names : List Name) (text : String) :
    CountsDeclarations sortedProject sortedConfig ["p".toList] names text ↔
      (names, text) = (["tests2".toList, "t_b.nim".toList], "proc a() = discard\n") := by
  constructor
  · intro h
    have hmem := mem_of_reads_sortedProject h.reads
    have hout := h.outside
    obtain ⟨n, hn, hnamed⟩ := h.named
    simp only [List.mem_cons, List.not_mem_nil, or_false] at hmem
    rcases hmem with e | e | e | e <;> cases e
    · exact absurd (by unfold Config.InTests; decide) hout
    · exact absurd (by unfold Config.InTests; decide) hout
    · rfl
    · cases hn
      exact absurd (Text.occurs_iff.1 rfl) hnamed
  · intro h
    cases h
    refine ⟨(Sources.mem_nimFiles_iff resolve_sortedConfig rfl _).2 ⟨_, rfl, ?_, rfl⟩, ?_, ?_,
      _, rfl, Text.occurs_eq_false_iff.1 rfl⟩
    · exact ⟨⟨_, _, rfl⟩, ⟨["tests2".toList], "t_b".toList, by decide, by decide⟩, by decide⟩
    · exact ⟨⟨_, rfl, rfl⟩, by unfold Short; decide, rfl⟩
    · unfold Config.InTests
      decide

theorem countDeclarations_procedure :
    Coverage.countDeclarations "proc a() = discard\n".toList = 1 := by
  cbv

/-- The only file that something is asked of is the list of such files. -/
theorem eq_singleton_of_mem_iff {l : List (List Name × String)} {x : List Name × String}
    (hnodup : (l.map (·.1)).Nodup) (h : ∀ names text, (names, text) ∈ l ↔ (names, text) = x) :
    l = [x] := by
  refine List.perm_singleton.1 ((List.perm_ext_iff_of_nodup (.of_map _ hnodup) (by simp)).2 ?_)
  intro e
  rw [List.mem_singleton]
  exact h e.1 e.2

/-- The test counts its block, and the source beside the tests directory its declaration. -/
theorem sums_by_role_sortedProject :
    sortedProject.resolve sortedConfig.root = .ok ["p".toList] ∧
      sortedProject.tree.node? ["p".toList] = some .directory ∧
      sortedConfig.testsDir.isAbsolute = false ∧ .up ∉ sortedConfig.testsDir.components ∧
      (ofProject sortedProject sortedConfig).testBlocks = 1 ∧
      (ofProject sortedProject sortedConfig).declarations = 1 := by
  have hr : sortedProject.tree.node? ["p".toList] = some .directory := by decide
  have hrelative : sortedConfig.testsDir.isAbsolute = false := by decide
  have hup : .up ∉ sortedConfig.testsDir.components := by decide
  obtain ⟨⟨tests, others, htests, hothers, hnodup, hnodup', -, hblocks, hdeclarations⟩, -⟩ :=
    sums_by_role resolve_sortedConfig hr hrelative hup
  have htest := eq_singleton_of_mem_iff hnodup fun names text =>
    (htests names text).trans (countsBlocks_sortedProject_iff names text)
  have hother := eq_singleton_of_mem_iff hnodup' fun names text =>
    (hothers names text).trans (countsDeclarations_sortedProject_iff names text)
  refine ⟨resolve_sortedConfig, hr, hrelative, hup, ?_, ?_⟩
  · rw [hblocks, htest]
    decide
  · rw [hdeclarations, hother]
    exact countDeclarations_procedure

/-! ## Paths that are too long -/

/-- A project with one source. -/
def singleProject : Disk where
  tree :=
    { entries :=
        [(["p".toList], .directory),
          (["p".toList, "a.nim".toList], .file (.text "proc a() = discard\n") 0o644)]
      distinct := by decide
      rooted := by decide
      named := by decide }
  here := []

theorem linkless_singleProject : singleProject.tree.Linkless := by
  rw [Tree.linkless_iff]
  simp [singleProject]

/-- With many slashes behind the root a source with a declaration is found, but it counts
nothing. -/
theorem passes_over_long_source :
    singleProject.resolve (padded [] 4090) = .ok ["p".toList] ∧
      .ofNames ["a.nim".toList] ∈ Sources.nimFiles singleProject (padded [] 4090) ∧
      singleProject.tree.node? (["p".toList] ++ ["a.nim".toList]) =
        some (.file (.text "proc a() = discard\n") 0o644) ∧
      ¬ (Config.standard none (padded [] 4090)).InTests ["a.nim".toList] ∧
      ¬ "test".toList <:+: "a.nim".toList.map Char.toLower ∧
      Coverage.countDeclarations "proc a() = discard\n".toList = 1 ∧
      (ofProject singleProject (.standard none (padded [] 4090))).declarations = 0 := by
  have hroot := resolve_padded rfl linkless_singleProject rfl rfl fits_slashes
  refine ⟨hroot, ?_, rfl, ?_, Text.occurs_eq_false_iff.1 rfl,
    countDeclarations_procedure, ?_⟩
  · have hentered := (Path.enters_concat_iff [] "a.nim".toList).2 fits_slashes
    refine (Sources.mem_nimFiles_iff hroot rfl _).2 ⟨_, rfl, ?_, hentered⟩
    exact ⟨⟨_, _, rfl⟩, ⟨[], ['a'], by decide, by decide⟩, by decide⟩
  · unfold Config.InTests
    decide
  · have hnone : counted singleProject (.standard none (padded [] 4090)) .source = [] := by
      rw [List.eq_nil_iff_forall_not_mem]
      intro e he
      obtain ⟨names, text⟩ := e
      obtain ⟨⟨hmem, hread⟩, -⟩ := mem_counted_iff.1 he
      obtain ⟨hsource, -⟩ := (Sources.mem_sourceNames_iff hroot rfl).1 hmem
      obtain ⟨content, mode, hnode⟩ := hsource.exists_entry
      simp only [singleProject, List.mem_cons, Prod.mk.injEq, reduceCtorEq, and_false, false_or,
        List.not_mem_nil, or_false] at hnode
      obtain ⟨-, rfl⟩ := List.cons.inj hnode.1
      obtain ⟨cause, hcause⟩ := singleProject.exists_readText_error
        (not_fits_join_slashes (q := .ofNames ["a.nim".toList]) rfl (by decide))
      rw [Config.standard, hcause] at hread
      cases hread
    rw [declarations_eq_sum, hnone]
    rfl

end Census
end StatusBadges
