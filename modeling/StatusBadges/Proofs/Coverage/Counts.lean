import StatusBadges.Coverage.Declarations
import StatusBadges.Proofs.Text
import StatusBadges.Proofs.Text.Leftmost
import StatusBadges.Proofs.Text.Pieces
import StatusBadges.TestSuite.Blocks

/-!
# Counts by lines

Test blocks and declarations are counted from one character on to the next. A count by lines comes
out when each line adds what it should and leaves the rest to the lines behind (`count_eq_countP`).
A declaration may be read from blank lines before it, which count nothing. It goes beyond its line
only when a keyword is all there is on the line: without such lines each declaration is counted at
its own line and once (`counts_by_lines`).
-/

namespace StatusBadges

namespace Text

/-! ## Lines one after another -/

/-- What can stand behind a line: nothing, or the line feed that ends it and the other lines. -/
inductive EndsLine : List Char → Prop
  | text : EndsLine []
  | line (rest : List Char) : EndsLine ('\n' :: rest)

theorem EndsLine.prefix_append_iff {lead line t : List Char} (ht : EndsLine t)
    (hlead : '\n' ∉ lead) : lead <+: line ++ t ↔ lead <+: line := by
  constructor
  · rintro ⟨more, hmore⟩
    rcases List.append_eq_append_iff.1 hmore with ⟨c, hc, -⟩ | ⟨c, rfl, hc⟩
    · exact ⟨c, hc.symm⟩
    · cases c with
      | nil => simp
      | cons b c =>
        cases ht with
        | text => cases hc
        | line rest =>
          obtain ⟨rfl, -⟩ := List.cons.inj hc
          simp at hlead
  · intro h
    exact h.trans (List.prefix_append line t)

/-- **A count by lines.** A count from the start of a line or from behind it that adds 1 or 0 at the
start of each line, by what the line says, is the number of lines for which it adds 1. -/
theorem count_eq_countP {count : Bool → List Char → ℕ} {p : List Char → Bool} (s : List Char)
    (hnil : count false [] = 0)
    (hfeed : ∀ rest, count false ('\n' :: rest) = count true rest)
    (hline : ∀ line ∈ split '\n' s, ∀ t, EndsLine t →
      count true (line ++ t) = (if p line then 1 else 0) + count false t) :
    count true s = (split '\n' s).countP p := by
  suffices h : ∀ pieces : List (List Char), pieces ≠ [] →
      (∀ line ∈ pieces, ∀ t, EndsLine t →
        count true (line ++ t) = (if p line then 1 else 0) + count false t) →
      count true (joined ['\n'] pieces) = pieces.countP p by
    have hs := h _ (split_ne_nil '\n' s) hline
    rwa [joined_split] at hs
  intro pieces hne hpieces
  induction pieces with
  | nil => exact absurd rfl hne
  | cons line more ih =>
    obtain ⟨hfirst, hmore⟩ := List.forall_mem_cons.1 hpieces
    rw [List.countP_cons]
    cases more with
    | nil =>
      have hlast := hfirst [] .text
      rw [List.append_nil, hnil] at hlast
      rw [joined, hlast, List.countP_nil, Nat.add_comm]
    | cons next more =>
      have hstep := hfirst _ (.line (joined ['\n'] (next :: more)))
      have hjoined : joined ['\n'] (line :: next :: more) =
          line ++ '\n' :: joined ['\n'] (next :: more) := by simp [joined]
      rw [hjoined, hstep, hfeed, ih (by simp) hmore, Nat.add_comm]

/-! ## White space and words -/

/-- No word character is white space. -/
theorem isBlank_of_isWordCharacter {c : Char} (h : isWordCharacter c = true) :
    isBlank c = false := by
  have hranges : ∀ r ∈ blankRanges, ∀ d < r.2 - r.1 + 1,
      inRanges wordRanges (r.1 + d) = false := by decide +kernel
  cases hblank : isBlank c with
  | false => rfl
  | true =>
    obtain ⟨r, hr, hlow, hhigh⟩ := exists_range_of_inRanges hblank
    have hat := hranges r hr (c.toNat - r.1) (by omega)
    rw [Nat.add_sub_cancel' hlow] at hat
    exact absurd h (by simp [isWordCharacter, hat])

theorem ne_feed_of_isWordCharacter {c : Char} (h : isWordCharacter c = true) : c ≠ '\n' := by
  rintro rfl
  exact absurd (isBlank_of_isWordCharacter h) (by decide)

end Text

namespace TestSuite

/-! ## Test blocks -/

section Blocks

variable {line t : List Char} (h : '\n' ∉ line)

include h in
theorem countBlocksFrom_behind (t : List Char) :
    countBlocksFrom false (line ++ t) = countBlocksFrom false t := by
  induction line with
  | nil => rfl
  | cons c line ih =>
    obtain ⟨hc, hline⟩ := not_or.1 (List.mem_cons.not.1 h)
    rw [List.cons_append, countBlocksFrom, decide_eq_false (Ne.symm hc), ih hline]
    simp

include h in
theorem countBlocksFrom_line (ht : Text.EndsLine t) :
    countBlocksFrom true (line ++ t) =
      (if decide ("block:".toList <+: line) then 1 else 0) + countBlocksFrom false t := by
  have hlead : "block:".toList <+: line ++ t ↔ "block:".toList <+: line :=
    ht.prefix_append_iff (by decide)
  cases line with
  | nil =>
    cases ht with
    | text => rfl
    | line rest => simp [countBlocksFrom, Text.after?]
  | cons c line =>
    obtain ⟨hc, hline⟩ := not_or.1 (List.mem_cons.not.1 h)
    rw [List.cons_append] at hlead ⊢
    rw [countBlocksFrom, decide_eq_false (Ne.symm hc), countBlocksFrom_behind hline]
    congr 1
    simp only [Bool.true_and, Text.after?_isSome_iff, decide_eq_true_eq, ← hlead]
    rfl

end Blocks

end TestSuite

namespace Coverage

/-! ## Declarations -/

section Declarations

variable {keyword : List Char}

/-- A declaration with all that is read of it. -/
theorem afterDeclaration?_eq_some_iff {s after : List Char} :
    afterDeclaration? keyword s = some after ↔
      ∃ gap name more, s = keyword ++ (gap ++ name :: more) ∧ gap ≠ [] ∧
        (∀ c ∈ gap, Text.isBlank c = true) ∧ Text.isWordCharacter name = true ∧
        after = more.dropWhile Text.isWordCharacter := by
  constructor
  · intro h
    unfold afterDeclaration? at h
    split at h
    · cases h
    · cases h
    · next first rest hrest =>
      split at h
      · next hfirst =>
        split at h
        · cases h
        · next name more hmore =>
          split at h
          · next hname =>
            obtain ⟨hs, -⟩ := Text.dropWhile_eq_cons_iff.1 hmore
            refine ⟨first :: rest.takeWhile Text.isBlank, name, more, ?_, by simp, ?_, hname,
              (Option.some.inj h).symm⟩
            · rw [Text.after?_eq_some_iff.1 hrest, List.cons_append, ← hs]
            · intro c hc
              rcases List.mem_cons.1 hc with rfl | hc
              · exact hfirst
              · exact List.mem_takeWhile_imp hc
          · cases h
      · cases h
  · rintro ⟨gap, name, more, rfl, hgap, hblank, hname, rfl⟩
    obtain ⟨first, gap, rfl⟩ := List.exists_cons_of_ne_nil hgap
    obtain ⟨hfirst, hblank⟩ := List.forall_mem_cons.1 hblank
    rw [afterDeclaration?, Text.after?_append]
    simp only [List.cons_append, hfirst, if_true,
      Text.dropWhile_run hblank (Text.isBlank_of_isWordCharacter hname), hname]

/-- A line declares something: behind white space at will it goes on with the keyword, white space
and a name. -/
def Declares (keyword line : List Char) : Prop :=
  ∃ gap name more, line.dropWhile Text.isBlank = keyword ++ (gap ++ name :: more) ∧ gap ≠ [] ∧
    (∀ c ∈ gap, Text.isBlank c = true) ∧ Text.isWordCharacter name = true

theorem isSome_afterDeclaration?_iff {line : List Char} :
    (afterDeclaration? keyword (line.dropWhile Text.isBlank)).isSome = true ↔
      Declares keyword line := by
  rw [Option.isSome_iff_exists]
  simp only [afterDeclaration?_eq_some_iff]
  constructor
  · rintro ⟨after, gap, name, more, hs, hgap, hblank, hname, -⟩
    exact ⟨gap, name, more, hs, hgap, hblank, hname⟩
  · rintro ⟨gap, name, more, hs, hgap, hblank, hname⟩
    exact ⟨_, gap, name, more, hs, hgap, hblank, hname, rfl⟩

instance (keyword line : List Char) : Decidable (Declares keyword line) :=
  decidable_of_iff _ isSome_afterDeclaration?_iff

/-! ### What one line adds -/

theorem countDeclarationsFrom_of_some {leads : Bool} {c : Char} {rest after : List Char}
    (h : afterDeclarationAt? keyword leads (c :: rest) = some after) :
    countDeclarationsFrom keyword leads (c :: rest) =
      1 + countDeclarationsFrom keyword false after := by
  rw [countDeclarationsFrom]
  split
  · next after' h' => rw [Option.some.inj (h.symm.trans h')]
  · next h' => rw [h] at h'; cases h'

theorem countDeclarationsFrom_of_none {leads : Bool} {c : Char} {rest : List Char}
    (h : afterDeclarationAt? keyword leads (c :: rest) = none) :
    countDeclarationsFrom keyword leads (c :: rest) =
      countDeclarationsFrom keyword (leadsBehind leads c) rest := by
  rw [countDeclarationsFrom]
  split
  · next after h' => rw [h] at h'; cases h'
  · rfl

theorem countDeclarationsFrom_feed (rest : List Char) :
    countDeclarationsFrom keyword false ('\n' :: rest) = countDeclarationsFrom keyword true rest :=
  countDeclarationsFrom_of_none rfl

/-- The rest of a line behind what is no white space adds nothing. -/
theorem countDeclarationsFrom_behind {line : List Char} (h : '\n' ∉ line) (t : List Char) :
    countDeclarationsFrom keyword false (line ++ t) = countDeclarationsFrom keyword false t := by
  induction line with
  | nil => rfl
  | cons c line ih =>
    obtain ⟨hc, hline⟩ := not_or.1 (List.mem_cons.not.1 h)
    rw [List.cons_append, countDeclarationsFrom_of_none rfl, leadsBehind,
      decide_eq_false (Ne.symm hc), ← ih hline]
    rfl

variable (hsolid : ∀ c ∈ keyword, Text.isBlank c = false) (hne : keyword ≠ [])

include hsolid hne in
/-- White space at the start of a line adds nothing, also when it is that of lines before. -/
theorem countDeclarationsFrom_indent {indent : List Char}
    (h : ∀ c ∈ indent, Text.isBlank c = true) (t : List Char) :
    countDeclarationsFrom keyword true (indent ++ t) = countDeclarationsFrom keyword true t := by
  induction indent with
  | nil => rfl
  | cons c indent ih =>
    obtain ⟨hc, hindent⟩ := List.forall_mem_cons.1 h
    have hnone : afterDeclarationAt? keyword true (c :: (indent ++ t)) = none := by
      rw [afterDeclarationAt?, if_pos rfl, Option.eq_none_iff_forall_ne_some]
      intro after hafter
      obtain ⟨gap, name, more, hs, -⟩ := afterDeclaration?_eq_some_iff.1 hafter
      obtain ⟨first, keyword, rfl⟩ := List.exists_cons_of_ne_nil hne
      obtain ⟨rfl, -⟩ := List.cons.inj hs
      rw [hsolid c List.mem_cons_self] at hc
      cases hc
    rw [List.cons_append, countDeclarationsFrom_of_none hnone, leadsBehind, hc, Bool.true_and,
      Bool.or_true, ih hindent]

include hsolid in
theorem lineFeed_notMem_keyword : '\n' ∉ keyword := by
  intro h
  have hblank := hsolid _ h
  revert hblank
  decide

include hsolid in
/-- A declaration that begins on a line ends on it, unless the keyword is all that is left of the
line. -/
theorem declaration_in_line {body t gap more : List Char} {name : Char} (ht : Text.EndsLine t)
    (hblank : ∀ c ∈ gap, Text.isBlank c = true) (hname : Text.isWordCharacter name = true)
    (h : body ++ t = keyword ++ (gap ++ name :: more)) :
    (∃ more', body = keyword ++ (gap ++ name :: more')) ∨
      ∃ gap', body = keyword ++ gap' ∧ ∀ c ∈ gap', Text.isBlank c = true := by
  have hfeed : name ≠ '\n' := Text.ne_feed_of_isWordCharacter hname
  rw [← List.append_assoc] at h
  rcases List.append_eq_append_iff.1 h with ⟨c, hc, ht'⟩ | ⟨c, rfl, hc⟩
  · right
    cases ht with
    | text => simp at ht'
    | line rest =>
      cases c with
      | nil => exact absurd (List.cons.inj ht').1.symm hfeed
      | cons b c =>
        obtain ⟨rfl, -⟩ := List.cons.inj ht'
        -- The line ends in the white space behind the keyword.
        rcases List.append_eq_append_iff.1 hc with ⟨gap', rfl, rfl⟩ | ⟨d, hd, hd'⟩
        · exact ⟨gap', rfl, fun x hx => hblank x (List.mem_append_left _ hx)⟩
        · cases d with
          | nil => exact ⟨[], by rw [hd, List.append_nil, List.append_nil], by simp⟩
          | cons b d =>
            obtain ⟨rfl, -⟩ := List.cons.inj hd'
            exact absurd (by simp [hd]) (lineFeed_notMem_keyword hsolid)
  · left
    cases c with
    | nil =>
      cases ht with
      | text => cases hc
      | line rest => exact absurd (List.cons.inj hc).1 hfeed
    | cons b c =>
      obtain ⟨rfl, -⟩ := List.cons.inj hc
      exact ⟨c, List.append_assoc _ _ _⟩

include hsolid in
theorem trim_eq_keyword {line gap : List Char}
    (hline : line.dropWhile Text.isBlank = keyword ++ gap)
    (hblank : ∀ c ∈ gap, Text.isBlank c = true) : Text.trim line = keyword := by
  have htrimmed : Text.Trimmed line keyword := by
    refine ⟨⟨line.takeWhile Text.isBlank, gap, ?_, fun c hc => List.mem_takeWhile_imp hc, hblank⟩,
      fun c hc => ?_, fun c hc => ?_⟩
    · rw [← hline, List.takeWhile_append_dropWhile]
    · exact hsolid c (List.mem_of_mem_head? hc)
    · exact hsolid c (List.mem_of_getLast? hc)
  exact htrimmed.eq_trim.symm

include hsolid hne in
theorem countDeclarationsFrom_of_endsLine {t : List Char} (ht : Text.EndsLine t) :
    countDeclarationsFrom keyword true t = countDeclarationsFrom keyword false t := by
  cases ht with
  | text => rw [countDeclarationsFrom, countDeclarationsFrom]
  | line rest =>
    have hfeed : ∀ c ∈ ['\n'], Text.isBlank c = true := List.forall_mem_singleton.2 (by decide)
    have hindent := countDeclarationsFrom_indent hsolid hne hfeed rest
    rw [List.singleton_append] at hindent
    rw [hindent, countDeclarationsFrom_feed]

omit hsolid hne in
/-- What is read of a declaration is counted, and the rest of its line adds nothing. -/
theorem countDeclarationsFrom_declaration {gap more : List Char} {name : Char} (hgap : gap ≠ [])
    (hblank : ∀ c ∈ gap, Text.isBlank c = true) (hname : Text.isWordCharacter name = true)
    (hmore : '\n' ∉ more) (t : List Char) :
    countDeclarationsFrom keyword true (keyword ++ (gap ++ name :: more) ++ t) =
      1 + countDeclarationsFrom keyword false t := by
  have hafter : afterDeclarationAt? keyword true (keyword ++ (gap ++ name :: more) ++ t) =
      some ((more ++ t).dropWhile Text.isWordCharacter) :=
    afterDeclaration?_eq_some_iff.2
      ⟨gap, name, more ++ t, by simp, hgap, hblank, hname, rfl⟩
  have hword : '\n' ∉ (more ++ t).takeWhile Text.isWordCharacter :=
    fun h => Text.ne_feed_of_isWordCharacter (List.mem_takeWhile_imp h) rfl
  have hrest := @countDeclarationsFrom_behind keyword _ hword
    ((more ++ t).dropWhile Text.isWordCharacter)
  rw [List.takeWhile_append_dropWhile, countDeclarationsFrom_behind hmore] at hrest
  obtain ⟨first, rest, hs⟩ : ∃ first rest,
      keyword ++ (gap ++ name :: more) ++ t = first :: rest :=
    List.exists_cons_of_ne_nil (by simp)
  rw [hs] at hafter ⊢
  rw [countDeclarationsFrom_of_some hafter, hrest]

include hsolid hne in
/-- **A line adds its declaration** and leaves the rest to the lines behind. -/
theorem countDeclarationsFrom_line {line t : List Char} (hline : '\n' ∉ line)
    (hbare : Text.trim line ≠ keyword) (ht : Text.EndsLine t) :
    countDeclarationsFrom keyword true (line ++ t) =
      (if decide (Declares keyword line) then 1 else 0) +
        countDeclarationsFrom keyword false t := by
  have hindent : ∀ c ∈ line.takeWhile Text.isBlank, Text.isBlank c = true :=
    fun c hc => List.mem_takeWhile_imp hc
  have hbody : '\n' ∉ line.dropWhile Text.isBlank :=
    fun h => hline ((List.dropWhile_sublist _).subset h)
  have hskip := countDeclarationsFrom_indent hsolid hne hindent (line.dropWhile Text.isBlank ++ t)
  rw [← List.append_assoc, List.takeWhile_append_dropWhile] at hskip
  rw [hskip]
  by_cases hdeclares : Declares keyword line
  · rw [decide_eq_true hdeclares, if_pos rfl]
    obtain ⟨gap, name, more, hs, hgap, hblank, hname⟩ := hdeclares
    rw [hs] at hbody ⊢
    apply countDeclarationsFrom_declaration hgap hblank hname
    intro h
    exact hbody (by simp [h])
  · rw [decide_eq_false hdeclares, if_neg Bool.false_ne_true, Nat.zero_add]
    cases hs : line.dropWhile Text.isBlank with
    | nil => exact countDeclarationsFrom_of_endsLine hsolid hne ht
    | cons c body =>
      have hnone : afterDeclarationAt? keyword true (c :: (body ++ t)) = none := by
        rw [afterDeclarationAt?, if_pos rfl, Option.eq_none_iff_forall_ne_some]
        intro after hafter
        obtain ⟨gap, name, more, hparts, hgap, hblank, hname, -⟩ :=
          afterDeclaration?_eq_some_iff.1 hafter
        rw [← List.cons_append, ← hs] at hparts
        rcases declaration_in_line hsolid ht hblank hname hparts with ⟨more', h⟩ | ⟨gap', h, hgap'⟩
        · exact hdeclares ⟨gap, name, more', h, hgap, hblank, hname⟩
        · exact hbare (trim_eq_keyword hsolid h hgap')
      rw [hs] at hbody
      obtain ⟨hc, hbody⟩ := not_or.1 (List.mem_cons.not.1 hbody)
      have hsolid' := (Text.dropWhile_eq_cons_iff.1 hs).2
      rw [List.cons_append, countDeclarationsFrom_of_none hnone, leadsBehind, hsolid',
        decide_eq_false (Ne.symm hc)]
      exact countDeclarationsFrom_behind hbody t

include hsolid hne in
/-- **Declarations are counted by lines** where no line is a bare keyword. -/
theorem countDeclarationsFrom_eq_countP {source : List Char}
    (hbare : ∀ line ∈ Text.split '\n' source, Text.trim line ≠ keyword) :
    countDeclarationsFrom keyword true source =
      (Text.split '\n' source).countP (fun line => Declares keyword line) := by
  apply Text.count_eq_countP source
  · rw [countDeclarationsFrom]
  · exact countDeclarationsFrom_feed
  · intro line hline t ht
    exact countDeclarationsFrom_line hsolid hne (Text.notMem_of_mem_split hline)
      (hbare line hline) ht

end Declarations

/-- Lines of which none is of both kinds are counted kind by kind. -/
theorem countP_or {p q : List Char → Prop} [DecidablePred p] [DecidablePred q]
    (h : ∀ line, p line → ¬ q line) (lines : List (List Char)) :
    lines.countP (fun line => p line) + lines.countP (fun line => q line) =
      lines.countP (fun line => p line ∨ q line) := by
  induction lines with
  | nil => rfl
  | cons line lines ih =>
    rw [List.countP_cons, List.countP_cons, List.countP_cons, ← ih]
    by_cases hp : p line
    · have hq := h line hp
      simp only [hp, hq, true_or, decide_true, decide_false, if_true, Bool.false_eq_true, if_false]
      omega
    · simp only [hp, false_or, decide_false, Bool.false_eq_true, if_false]
      omega

theorem not_declares_both (line : List Char) (h : Declares "proc".toList line) :
    ¬ Declares "func".toList line := by
  rintro ⟨gap', name', more', hs', -⟩
  obtain ⟨gap, name, more, hs, -⟩ := h
  rw [hs] at hs'
  exact absurd (List.cons.inj hs').1 (by decide)

/-- **Blocks and declarations are counted by lines.** -/
theorem counts_by_lines (source : List Char) :
    TestSuite.countBlocks source =
        (Text.split '\n' source).countP (fun line => "block:".toList <+: line) ∧
      ((∀ line ∈ Text.split '\n' source,
          Text.trim line ≠ "proc".toList ∧ Text.trim line ≠ "func".toList) →
        countDeclarations source = (Text.split '\n' source).countP
          (fun line => Declares "proc".toList line ∨ Declares "func".toList line)) := by
  constructor
  · apply Text.count_eq_countP source
    · rfl
    · intro rest
      simp [TestSuite.countBlocksFrom]
    · intro line hline t ht
      exact TestSuite.countBlocksFrom_line (Text.notMem_of_mem_split hline) ht
  · intro hbare
    have hsolid : ∀ c ∈ "proc".toList, Text.isBlank c = false :=
      List.forall_iff_forall_mem.1 (by decide)
    have hsolid' : ∀ c ∈ "func".toList, Text.isBlank c = false :=
      List.forall_iff_forall_mem.1 (by decide)
    have hproc := countDeclarationsFrom_eq_countP hsolid (by decide)
      fun line hline => (hbare line hline).1
    have hfunc := countDeclarationsFrom_eq_countP hsolid' (by decide)
      fun line hline => (hbare line hline).2
    rw [← countP_or not_declares_both, ← hproc, ← hfunc]
    rfl

/-- Two declarations, one of them behind a blank line, and lines that only look like one. -/
theorem counts_by_lines_mixedSource :
    let source := "block:\n \n\tproc a*() = 1\r\n  block:\nfunc b = 2\nprocedure c\nfunc(d)".toList
    (∀ line ∈ Text.split '\n' source,
      Text.trim line ≠ "proc".toList ∧ Text.trim line ≠ "func".toList) ∧
      TestSuite.countBlocks source = 1 ∧ countDeclarations source = 2 := by
  intro source
  have hbare : ∀ line ∈ Text.split '\n' source,
      Text.trim line ≠ "proc".toList ∧ Text.trim line ≠ "func".toList := by decide +kernel
  obtain ⟨hblocks, hdeclarations⟩ := counts_by_lines source
  refine ⟨hbare, ?_, ?_⟩
  · rw [hblocks]
    decide +kernel
  · rw [hdeclarations hbare]
    decide +kernel

/-- A bare keyword takes its name from the next line, and no line declares it. -/
example : countDeclarations "proc\nname".toList = 1 := by cbv

end Coverage

end StatusBadges
