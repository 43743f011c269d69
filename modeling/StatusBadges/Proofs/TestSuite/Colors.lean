import StatusBadges.Proofs.TestSuite
import StatusBadges.Proofs.Text.Lines

/-!
# Colours change no outcome

The runner can put colours anywhere into its output (`Colored`), also between the characters that
end a line. The output is taken apart into lines before its colours are taken out of them. It could
be done the other way round: no colour reaches over a line feed, so that the stripped pieces of a
text are the pieces of the stripped text (`split_strip`), and the outcomes are those of the output
without its colours (`outcomes_eq_tally`).
-/

namespace StatusBadges.TestSuite

/-! ## Colours and the ends of lines -/

/-- The characters at the end of a line are not part of a colour. -/
theorem lineEnd_notMem_color {color : List Char} (h : IsColor color) {c : Char}
    (hc : c ∈ ['\n', '\r']) : c ∉ color := by
  obtain ⟨parameters, hparameters, rfl⟩ := h
  have hno : isParameter c = false ∧ c ∉ ['\x1b', '[', 'm'] := by
    simp only [List.mem_cons, List.not_mem_nil, or_false] at hc
    rcases hc with rfl | rfl <;> decide
  intro hmem
  simp only [List.mem_cons, List.mem_append, List.not_mem_nil, or_false] at hmem hno
  rcases hmem with h | h | h | h
  · exact hno.2 (Or.inl h)
  · exact hno.2 (Or.inr (Or.inl h))
  · rw [hparameters c h] at hno
    cases hno.1
  · exact hno.2 (Or.inr (Or.inr h))

theorem strip_cons_of_ne {c : Char} (hc : c ≠ '\x1b') (rest : List Char) :
    strip (c :: rest) = c :: strip rest := by
  refine strip_cons_of_none (afterColor?_eq_none_iff.2 fun color behind hcolor e => ?_)
  obtain ⟨parameters, -, rfl⟩ := hcolor
  exact hc (List.cons.inj e).1

/-- A text and what stands behind the end of a line in it are stripped apart. -/
theorem strip_append_lineEnd {c : Char} (hc : c ∈ ['\n', '\r']) (s t : List Char) :
    strip (s ++ c :: t) = strip s ++ c :: strip t := by
  fun_induction strip s with
  | case1 =>
    refine strip_cons_of_ne ?_ t
    rintro rfl
    exact absurd hc (by decide)
  | case2 x rest after hafter ih =>
    obtain ⟨color, hcolor, e⟩ := afterColor?_eq_some_iff.1 hafter
    rw [← ih]
    refine strip_of_afterColor? (afterColor?_eq_some_iff.2 ⟨color, hcolor, ?_⟩)
    rw [e, List.append_assoc]
  | case3 x rest hnone ih =>
    rw [List.cons_append, List.cons_append, ← ih]
    refine strip_cons_of_none (afterColor?_eq_none_iff.2 fun color behind hcolor e => ?_)
    -- A colour at the front would be one of the text itself or have the line end in it.
    rw [← List.cons_append, List.append_eq_append_iff] at e
    have hno := afterColor?_eq_none_iff.1 hnone
    rcases e with ⟨inside, hcolor', hbehind⟩ | ⟨more, htext, -⟩
    · cases inside with
      | nil => exact hno color [] hcolor (by simpa using hcolor'.symm)
      | cons d inside =>
        obtain ⟨rfl, -⟩ := List.cons.inj hbehind
        exact lineEnd_notMem_color hcolor hc (by simp [hcolor'])
    · exact hno color more hcolor htext

theorem strip_sublist (s : List Char) : (strip s).Sublist s := by
  fun_induction strip s with
  | case1 => exact .slnil
  | case2 c rest after hafter ih =>
    obtain ⟨color, -, e⟩ := afterColor?_eq_some_iff.1 hafter
    rw [e]
    exact ih.trans (List.sublist_append_right color after)
  | case3 c rest hnone ih => exact ih.cons_cons c

/-- **The pieces of a stripped text are its pieces, stripped.** -/
theorem split_strip (s : List Char) :
    Text.split '\n' (strip s) = (Text.split '\n' s).map strip := by
  induction hn : s.length using Nat.strongRecOn generalizing s with
  | ind n ih =>
    by_cases hfeed : '\n' ∈ s
    · obtain ⟨first, rest, rfl, hfirst⟩ := List.eq_append_cons_of_mem hfeed
      have hlength : rest.length < n := by
        rw [← hn, List.length_append, List.length_cons]
        omega
      have hstripped : '\n' ∉ strip first := fun h => hfirst ((strip_sublist first).subset h)
      rw [strip_append_lineEnd (by decide), Text.split_append, Text.split_append,
        ih rest.length hlength rest rfl, Text.split_eq_singleton hfirst,
        Text.split_eq_singleton hstripped]
      rfl
    · have hstripped : '\n' ∉ strip s := fun h => hfeed ((strip_sublist s).subset h)
      rw [Text.split_eq_singleton hfeed, Text.split_eq_singleton hstripped]
      rfl

/-! ## Reports -/

theorem ignoresReturn_strip {α : Type} {f : List Char → α} (hf : Text.IgnoresReturn f) :
    Text.IgnoresReturn fun line => f (strip line) := by
  intro line
  have hreturn := strip_append_lineEnd (c := '\r') (by decide) line []
  rw [strip] at hreturn
  show f (strip (line ++ ['\r'])) = f (strip line)
  rw [hreturn, hf]

theorem ignoresReturn_reportsPass : Text.IgnoresReturn reportsPass := by
  have hmarker : Text.IgnoresReturn (Text.occurs ['P', 'A', 'S', 'S', ':']) :=
    Text.ignoresReturn_occurs rfl (by decide)
  have hcompiled : Text.IgnoresReturn (Text.occurs ['.', 'n', 'i', 'm', ' ', 'c']) :=
    Text.ignoresReturn_occurs rfl (by decide)
  intro line
  rw [reportsPass, reportsPass, hmarker, hcompiled]

theorem ignoresReturn_reportsFailure : Text.IgnoresReturn reportsFailure := by
  have hmarker : Text.IgnoresReturn (Text.occurs ['F', 'A', 'I', 'L', ':']) :=
    Text.ignoresReturn_occurs rfl (by decide)
  intro line
  rw [reportsFailure, reportsFailure, ignoresReturn_reportsPass, hmarker]

/-- The outcomes that the pieces of a text without colours report. -/
def tally (text : List Char) : Outcomes where
  passed := (Text.split '\n' text).countP reportsPass
  failed := (Text.split '\n' text).countP reportsFailure

/-- **The outcomes are those of the output without its colours.** -/
theorem outcomes_eq_tally (output : List Char) : outcomes output = tally (strip output) := by
  have hcount {p : List Char → Bool} (hp : Text.IgnoresReturn p) (hempty : p [] = false) :
      (Text.lines output).countP (fun line => p (strip line)) =
        (Text.split '\n' (strip output)).countP p := by
    rw [← Text.countP_split (ignoresReturn_strip hp) (by rw [strip, hempty]), split_strip,
      List.countP_map]
    rfl
  rw [outcomes, tally, hcount ignoresReturn_reportsPass rfl,
    hcount ignoresReturn_reportsFailure rfl]

/-! ## Coloured texts -/

/-- A text with colours put in between its characters, before and behind them. -/
inductive Colored : List Char → List Char → Prop
  | nil : Colored [] []
  | char {plain colored : List Char} (c : Char) (h : Colored plain colored) :
      Colored (c :: plain) (c :: colored)
  | color {plain colored color : List Char} (hcolor : IsColor color) (h : Colored plain colored) :
      Colored plain (color ++ colored)

/-- Stripping takes out the colours that were put into a text without escapes, and nothing else. -/
theorem Colored.strip_eq {plain colored : List Char} (h : Colored plain colored)
    (hplain : '\x1b' ∉ plain) : strip colored = plain := by
  induction h with
  | nil => rw [strip]
  | char c _ ih =>
    obtain ⟨hc, hrest⟩ := not_or.1 (List.mem_cons.not.1 hplain)
    rw [strip_cons_of_ne (Ne.symm hc), ih hrest]
  | color hcolor _ ih =>
    rw [strip_of_afterColor? (afterColor?_eq_some_iff.2 ⟨_, hcolor, rfl⟩), ih hplain]

theorem Colored.refl (text : List Char) : Colored text text := by
  induction text with
  | nil => exact .nil
  | cons c text ih => exact .char c ih

theorem Colored.text {plain colored : List Char} (h : Colored plain colored) (text : List Char) :
    Colored (text ++ plain) (text ++ colored) := by
  induction text with
  | nil => exact h
  | cons c text ih => exact .char c ih

/-- **Colours change no outcome**, wherever they stand. -/
theorem outcomes_of_colored {plain colored : List Char} (hplain : '\x1b' ∉ plain)
    (h : Colored plain colored) : outcomes colored = outcomes plain := by
  rw [outcomes_eq_tally, outcomes_eq_tally plain, h.strip_eq hplain,
    (Colored.refl plain).strip_eq hplain]

/-- A line that reports a pass. -/
def passedLine : List Char :=
  ['P', 'A'] ++ ("SS: tests/t_a.nim c\r".toList ++ (['\n'] ++ []))

/-- The line with colours in its marker, before its line feed and behind it. -/
def paintedLine : List Char :=
  ['\x1b', '[', '3', '2', 'm'] ++ (['P', 'A'] ++ (['\x1b', '[', '0', 'm'] ++
    (['\x1b', '[', '1', ';', '3', 'm'] ++ ("SS: tests/t_a.nim c\r".toList ++
      (['\x1b', '[', '0', 'm'] ++ (['\n'] ++ (['\x1b', '[', 'm'] ++ [])))))))

/-- The painted line still reports one pass. -/
theorem outcomes_paintedLine :
    '\x1b' ∉ passedLine ∧ Colored passedLine paintedLine ∧ outcomes paintedLine = ⟨1, 0⟩ := by
  have hplain : '\x1b' ∉ passedLine := by decide
  have hgreen : IsColor ['\x1b', '[', '3', '2', 'm'] := ⟨['3', '2'], List.all_eq_true.1 rfl, rfl⟩
  have hzero : IsColor ['\x1b', '[', '0', 'm'] := ⟨['0'], List.all_eq_true.1 rfl, rfl⟩
  have hbold : IsColor ['\x1b', '[', '1', ';', '3', 'm'] :=
    ⟨['1', ';', '3'], List.all_eq_true.1 rfl, rfl⟩
  have hnone : IsColor ['\x1b', '[', 'm'] := ⟨[], List.all_eq_true.1 rfl, rfl⟩
  have hcolored : Colored passedLine paintedLine :=
    .color hgreen (.text (.color hzero (.color hbold (.text (.color hzero
      (.text (.color hnone .nil) _)) _))) _)
  refine ⟨hplain, hcolored, ?_⟩
  rw [outcomes_of_colored hplain hcolored, outcomes_eq_tally, (Colored.refl _).strip_eq hplain]
  decide

end StatusBadges.TestSuite
