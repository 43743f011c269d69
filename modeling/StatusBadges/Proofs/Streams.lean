import Mathlib.Data.List.DropRight
import StatusBadges.Proofs.Coverage.Summary
import StatusBadges.Proofs.TestSuite.Colors

/-!
# Where the streams of a command meet

The error text of a command is read behind its output text, from a new line on. Where the output
text does not end its last line, that line gets a line feed, and a carriage return at its end is
then part of what ends it. Everything that does not see carriage returns at the ends of lines
therefore says of both texts together what it says of one after the other (`map_lines_combined`).
The outcomes of tests and the percentage of a summary are found by such questions.
-/

namespace StatusBadges.Output

/-! ## Lines -/

/-- **No line is fused or lost where the streams meet.** -/
theorem map_lines_combined {α : Type} {f : List Char → α} (hf : Text.IgnoresReturn f) (o : Output) :
    (Text.lines o.combined).map f =
      (Text.lines o.stdout.toList).map f ++ (Text.lines o.stderr.toList).map f := by
  unfold combined
  generalize o.stdout.toList = out
  generalize o.stderr.toList = err
  by_cases hout : out = []
  · subst hout
    rfl
  by_cases herr : err = []
  · subst herr
    simp [Text.lines]
  simp only [List.isEmpty_eq_false_iff.2 hout, List.isEmpty_eq_false_iff.2 herr, Bool.false_or,
    Bool.or_false, decide_eq_true_eq]
  by_cases hlast : out.getLast? = some '\n'
  · obtain ⟨body, rfl⟩ := List.getLast?_eq_some_iff.1 hlast
    have hbody := Text.map_lines_append hf body []
    rw [if_pos hlast, List.append_assoc, List.singleton_append, Text.map_lines_append hf, hbody,
      Text.lines, List.map_nil, List.append_nil]
  · rw [if_neg hlast, Text.map_lines_append hf, Text.map_split hf,
      Text.openPiece_eq_nil hout hlast, List.map_nil, List.append_nil]

theorem countP_lines_combined {p : List Char → Bool} (hp : Text.IgnoresReturn p) (o : Output) :
    (Text.lines o.combined).countP p =
      (Text.lines o.stdout.toList).countP p + (Text.lines o.stderr.toList).countP p := by
  have hmap := congrArg (List.countP id) (map_lines_combined hp o)
  simpa only [List.countP_append, List.countP_map, Function.id_comp] using hmap

theorem findSome?_lines_combined {α : Type} {f : List Char → Option α} (hf : Text.IgnoresReturn f)
    (o : Output) :
    (Text.lines o.combined).findSome? f =
      ((Text.lines o.stdout.toList).findSome? f).or ((Text.lines o.stderr.toList).findSome? f) := by
  have hmap := congrArg (List.findSome? id) (map_lines_combined hf o)
  simpa only [List.findSome?_append, List.findSome?_map, Function.id_comp] using hmap

/-! ## Readings -/

/-- A line without the carriage returns at its end. -/
def bare (line : List Char) : List Char := line.rdropWhile (· = '\r')

theorem ignoresReturn_bare : Text.IgnoresReturn bare := by
  intro line
  exact List.rdropWhile_concat_pos _ _ _ (by decide)

/-- **Both streams are read in full**: up to carriage returns at their ends, the lines of the
combined output are those of the two streams, the outcomes of both add up, and the percentage is
that of the output text, or else that of the error text. -/
theorem combined_reads_streams (o : Output) :
    (Text.lines o.combined).map bare =
        (Text.lines o.stdout.toList ++ Text.lines o.stderr.toList).map bare ∧
      TestSuite.outcomes o.combined =
        ⟨(TestSuite.outcomes o.stdout.toList).passed + (TestSuite.outcomes o.stderr.toList).passed,
          (TestSuite.outcomes o.stdout.toList).failed +
            (TestSuite.outcomes o.stderr.toList).failed⟩ ∧
      Coverage.summaryPercent? o.combined =
        (Coverage.summaryPercent? o.stdout.toList).or
          (Coverage.summaryPercent? o.stderr.toList) := by
  refine ⟨?_, ?_, findSome?_lines_combined Coverage.ignoresReturn_statedPercent? o⟩
  · rw [map_lines_combined ignoresReturn_bare, List.map_append]
  · rw [TestSuite.outcomes,
      countP_lines_combined (TestSuite.ignoresReturn_strip TestSuite.ignoresReturn_reportsPass),
      countP_lines_combined (TestSuite.ignoresReturn_strip TestSuite.ignoresReturn_reportsFailure)]
    rfl

end StatusBadges.Output
