import StatusBadges.Proofs.Binary64.Rounding
import StatusBadges.Proofs.Coverage.Summary
import StatusBadges.Proofs.Text.Leftmost

/-!
# The percentage that a summary states

A number is a run of digits, with a point and more digits at will. What is before a percent sign can
be one number only (`Number.eq_of_append`), so that a line states at most one percentage, that of
the number nearest to its front. A summary has the percentage of the first line with the label whose
number is in ASCII digits. All other lines can come and go (`summaryPercent?_append`).
-/

namespace StatusBadges

/-! ## Numbers -/

/-- A number in the digits of any scripts. Behind a point there may be no digits. -/
structure Number where
  whole : List Char
  /-- What is behind the point, if there is one. -/
  decimals? : Option (List Char)
  whole_ne_nil : whole ≠ []
  whole_digits : ∀ c ∈ whole, Text.isDecimalDigit c = true
  decimals_digits : ∀ d ∈ decimals?, ∀ c ∈ d, Text.isDecimalDigit c = true

namespace Number

def decimals (n : Number) : List Char := n.decimals?.getD []

def text (n : Number) : List Char := n.whole ++ n.decimals?.elim [] ('.' :: ·)

def IsAscii (n : Number) : Prop := ∀ c ∈ n.whole ++ n.decimals, c.isDigit = true

/-- The value of a number in ASCII digits. -/
def value (n : Number) : ℚ :=
  Text.numeralValue n.whole + Text.numeralValue n.decimals / 10 ^ n.decimals.length

theorem isDecimalDigit_point : Text.isDecimalDigit '.' = false := by decide

theorem isDecimalDigit_percent : Text.isDecimalDigit '%' = false := by decide

theorem text_of_none {n : Number} (h : n.decimals? = none) : n.text = n.whole := by
  simp [text, h]

theorem text_of_some {n : Number} {d : List Char} (h : n.decimals? = some d) :
    n.text = n.whole ++ '.' :: d := by
  simp [text, h]

/-- A number begins with a digit. -/
theorem exists_text_eq_cons (n : Number) :
    ∃ c rest, n.text = c :: rest ∧ Text.isDecimalDigit c = true := by
  obtain ⟨c, rest, hwhole⟩ := List.exists_cons_of_ne_nil n.whole_ne_nil
  refine ⟨c, rest ++ n.decimals?.elim [] ('.' :: ·), by rw [text, hwhole]; rfl, ?_⟩
  exact n.whole_digits c (hwhole ▸ List.mem_cons_self)

/-- **The text of a number up to a percent sign tells the number.** -/
theorem eq_of_append {m n : Number} {behind behind' : List Char}
    (h : m.text ++ '%' :: behind = n.text ++ '%' :: behind') : m = n ∧ behind = behind' := by
  obtain ⟨whole, decimals?, hne, hwhole, hdecimals⟩ := m
  obtain ⟨whole', decimals?', hne', hwhole', hdecimals'⟩ := n
  cases decimals? with
  | none =>
    cases decimals?' with
    | none =>
      rw [text_of_none rfl, text_of_none rfl] at h
      obtain ⟨rfl, -, hbehind⟩ := Text.eq_of_run hwhole hwhole' isDecimalDigit_percent
        isDecimalDigit_percent h
      exact ⟨rfl, hbehind⟩
    | some d' =>
      rw [text_of_none rfl, text_of_some rfl, List.append_assoc] at h
      obtain ⟨-, hpercent, -⟩ := Text.eq_of_run hwhole hwhole' isDecimalDigit_percent
        isDecimalDigit_point h
      exact absurd hpercent (by decide)
  | some d =>
    cases decimals?' with
    | none =>
      rw [text_of_some rfl, text_of_none rfl, List.append_assoc] at h
      obtain ⟨-, hpoint, -⟩ := Text.eq_of_run hwhole hwhole' isDecimalDigit_point
        isDecimalDigit_percent h
      exact absurd hpoint (by decide)
    | some d' =>
      rw [text_of_some rfl, text_of_some rfl, List.append_assoc, List.append_assoc] at h
      obtain ⟨rfl, -, hrest⟩ := Text.eq_of_run hwhole hwhole' isDecimalDigit_point
        isDecimalDigit_point h
      obtain ⟨rfl, -, hbehind⟩ := Text.eq_of_run (hdecimals d rfl) (hdecimals' d' rfl)
        isDecimalDigit_percent isDecimalDigit_percent hrest
      exact ⟨rfl, hbehind⟩

/-- **What is read from ASCII digits is the binary64 number nearest to their value.** -/
theorem nearestTo_ofDecimal (n : Number) :
    Binary64.NearestTo n.value (Binary64.ofDecimal n.whole n.decimals) := by
  have hpositive : 0 < 10 ^ n.decimals.length := Nat.pow_pos (by norm_num)
  have hvalue : n.value =
      (Text.numeralValue (n.whole ++ n.decimals) : ℚ) / (10 ^ n.decimals.length : ℕ) := by
    rw [value, Text.numeralValue_append]
    push_cast
    field_simp
  rw [hvalue]
  exact Binary64.nearestTo_ofRatio _ hpositive

end Number

namespace Coverage

/-! ## Lines -/

/-- A number is read as far as the percent sign behind it. -/
theorem percentageHere?_text (n : Number) (behind : List Char) :
    percentageHere? (n.text ++ '%' :: behind) = some (n.whole, n.decimals) := by
  have hne : n.whole.isEmpty = false := List.isEmpty_eq_false_iff.2 n.whole_ne_nil
  cases hdecimals : n.decimals? with
  | none =>
    rw [Number.text_of_none hdecimals, percentageHere?,
      Text.takeWhile_run n.whole_digits Number.isDecimalDigit_percent,
      Text.dropWhile_run n.whole_digits Number.isDecimalDigit_percent]
    simp [hne, Number.decimals, hdecimals]
  | some d =>
    have hd := n.decimals_digits d hdecimals
    rw [Number.text_of_some hdecimals, List.append_assoc, List.cons_append, percentageHere?,
      Text.takeWhile_run n.whole_digits Number.isDecimalDigit_point,
      Text.dropWhile_run n.whole_digits Number.isDecimalDigit_point]
    simp only [hne, Bool.false_eq_true, if_false,
      Text.takeWhile_run hd Number.isDecimalDigit_percent,
      Text.dropWhile_run hd Number.isDecimalDigit_percent, Number.decimals, hdecimals,
      Option.getD_some]

theorem exists_number_of_percentageHere? {s : List Char} {parts : List Char × List Char}
    (h : percentageHere? s = some parts) :
    ∃ (n : Number) (behind : List Char), s = n.text ++ '%' :: behind ∧
      parts = (n.whole, n.decimals) := by
  simp only [percentageHere?] at h
  split at h
  · cases h
  · next hfilled =>
    have hne : s.takeWhile Text.isDecimalDigit ≠ [] := by simpa using hfilled
    have hdigits : ∀ c ∈ s.takeWhile Text.isDecimalDigit, Text.isDecimalDigit c = true :=
      fun c hc => List.mem_takeWhile_imp hc
    split at h
    · next behind hstop =>
      obtain ⟨hs, -⟩ := Text.dropWhile_eq_cons_iff.1 hstop
      refine ⟨⟨_, none, hne, hdigits, by simp⟩, behind, ?_, (Option.some.inj h).symm⟩
      rwa [Number.text_of_none rfl]
    · next rest hstop =>
      obtain ⟨hs, -⟩ := Text.dropWhile_eq_cons_iff.1 hstop
      split at h
      · next behind hstop' =>
        obtain ⟨hrest, -⟩ := Text.dropWhile_eq_cons_iff.1 hstop'
        refine ⟨⟨_, some (rest.takeWhile Text.isDecimalDigit), hne, hdigits, ?_⟩, behind, ?_,
          (Option.some.inj h).symm⟩
        · intro d hd c hc
          obtain rfl := Option.some.inj hd
          exact List.mem_takeWhile_imp hc
        · rw [Number.text_of_some rfl, List.append_assoc, List.cons_append, ← hrest]
          exact hs
      · cases h
    · cases h

/-- What is read at the front of a text is the number there, if a percent sign follows. -/
theorem percentageHere?_eq_some_iff {s : List Char} {parts : List Char × List Char} :
    percentageHere? s = some parts ↔
      ∃ (n : Number) (behind : List Char), s = n.text ++ '%' :: behind ∧
        parts = (n.whole, n.decimals) := by
  constructor
  · exact exists_number_of_percentageHere?
  · intro h
    obtain ⟨n, behind, rfl, rfl⟩ := h
    exact percentageHere?_text n behind

theorem percentage?_eq (s : List Char) :
    percentage? s = s.tails.findSome? percentageHere? := by
  induction s with
  | nil => rfl
  | cons c s ih =>
    rw [percentage?, List.tails_cons, List.findSome?_cons, ih]
    cases percentageHere? (c :: s) <;> rfl

/-- A line states a number: a percent sign follows it, and no such number begins nearer to the front
of the line. -/
def States (line : List Char) (n : Number) : Prop :=
  ∃ before behind, line = before ++ (n.text ++ '%' :: behind) ∧
    ∀ before' (n' : Number) behind', line = before' ++ (n'.text ++ '%' :: behind') →
      before.length ≤ before'.length

/-- A number with a percent sign behind it begins a text. -/
def Begins (s : List Char) : Prop :=
  ∃ (n : Number) (behind : List Char), s = n.text ++ '%' :: behind

theorem begins_iff {s : List Char} : Begins s ↔ ∃ parts, percentageHere? s = some parts := by
  simp only [percentageHere?_eq_some_iff, Begins]
  constructor
  · intro h
    obtain ⟨n, behind, hs⟩ := h
    exact ⟨_, n, behind, hs, rfl⟩
  · intro h
    obtain ⟨-, n, behind, hs, -⟩ := h
    exact ⟨n, behind, hs⟩

theorem states_iff {line : List Char} {n : Number} :
    States line n ↔
      ∃ before behind, Text.FirstAt Begins line before (n.text ++ '%' :: behind) := by
  constructor
  · intro h
    obtain ⟨before, behind, hline, hleast⟩ := h
    refine ⟨before, behind, hline, ⟨n, behind, rfl⟩, ?_⟩
    intro before' rest' hline' hrest
    obtain ⟨n', behind', rfl⟩ := hrest
    exact hleast before' n' behind' hline'
  · intro h
    obtain ⟨before, behind, hline, -, hleast⟩ := h
    exact ⟨before, behind, hline, fun before' n' behind' hline' =>
      hleast before' _ hline' ⟨n', behind', rfl⟩⟩

/-- **A line states one number at most.** -/
theorem States.unique {line : List Char} {m n : Number} (hm : States line m)
    (hn : States line n) : m = n := by
  obtain ⟨before, behind, hfirst⟩ := states_iff.1 hm
  obtain ⟨before', behind', hfirst'⟩ := states_iff.1 hn
  exact (Number.eq_of_append (hfirst.unique hfirst').2).1

theorem percentage?_eq_some_iff {line : List Char} {parts : List Char × List Char} :
    percentage? line = some parts ↔ ∃ n, States line n ∧ parts = (n.whole, n.decimals) := by
  rw [percentage?_eq, Text.findSome?_tails_eq_some_iff fun _ => begins_iff]
  constructor
  · intro h
    obtain ⟨before, rest, hfirst, hread⟩ := h
    obtain ⟨n, behind, rfl, hparts⟩ := percentageHere?_eq_some_iff.1 hread
    exact ⟨n, states_iff.2 ⟨before, behind, hfirst⟩, hparts⟩
  · intro h
    obtain ⟨n, hstates, hparts⟩ := h
    obtain ⟨before, behind, hfirst⟩ := states_iff.1 hstates
    exact ⟨before, _, hfirst, percentageHere?_eq_some_iff.2 ⟨n, behind, rfl, hparts⟩⟩

/-- Of digits with two points between them only the end is a number. -/
example : percentage? "1.2.3% (85%)".toList = some (['2'], ['3']) := by decide

theorem percentageValue?_eq_some_iff {n : Number} {x : Binary64} :
    percentageValue? (n.whole, n.decimals) = some x ↔ n.IsAscii ∧ Binary64.NearestTo n.value x := by
  have hnearest := n.nearestTo_ofDecimal
  simp only [percentageValue?, List.all_eq_true, Number.IsAscii]
  constructor
  · intro h
    split at h
    · next hascii =>
      obtain rfl := Option.some.inj h
      exact ⟨hascii, hnearest⟩
    · cases h
  · intro h
    obtain ⟨hascii, hx⟩ := h
    rw [if_pos hascii, hnearest.unique hx]

/-- What a line with the label states is the number nearest to the first one in it, in ASCII. -/
theorem statedPercent?_eq_some_iff {line : List Char} {x : Binary64} :
    statedPercent? line = some x ↔
      linesLabel.toList <:+: line ∧
        ∃ n, States line n ∧ n.IsAscii ∧ Binary64.NearestTo n.value x := by
  rw [statedPercent?, ← Text.occurs_iff]
  split
  · next hlabel =>
    rw [Option.bind_eq_some_iff]
    constructor
    · intro h
      obtain ⟨parts, hparts, hvalue⟩ := h
      obtain ⟨n, hstates, rfl⟩ := percentage?_eq_some_iff.1 hparts
      exact ⟨hlabel, n, hstates, percentageValue?_eq_some_iff.1 hvalue⟩
    · intro h
      obtain ⟨-, n, hstates, hvalue⟩ := h
      exact ⟨_, percentage?_eq_some_iff.2 ⟨n, hstates, rfl⟩,
        percentageValue?_eq_some_iff.2 hvalue⟩
  · next hlabel => simp [hlabel]

theorem statedPercent?_eq_none_iff {line : List Char} :
    statedPercent? line = none ↔
      (linesLabel.toList <:+: line → ∀ n, States line n → ¬ n.IsAscii) := by
  rw [Option.eq_none_iff_forall_ne_some]
  constructor
  · intro h hlabel n hstates hascii
    exact h _ (statedPercent?_eq_some_iff.2 ⟨hlabel, n, hstates, hascii, n.nearestTo_ofDecimal⟩)
  · intro h x hx
    obtain ⟨hlabel, n, hstates, hascii, -⟩ := statedPercent?_eq_some_iff.1 hx
    exact h hlabel n hstates hascii

/-! ## Summaries -/

/-- The lines of a summary that are about line coverage. -/
def labelLines (summary : List Char) : List (List Char) :=
  (Text.lines summary).filter fun line => linesLabel.toList <:+: line

theorem summaryPercent?_eq (summary : List Char) :
    summaryPercent? summary = (labelLines summary).findSome? statedPercent? := by
  rw [summaryPercent?, labelLines]
  induction Text.lines summary with
  | nil => rfl
  | cons line lines ih =>
    by_cases hlabel : linesLabel.toList <:+: line
    · rw [List.filter_cons_of_pos (by simpa using hlabel), List.findSome?_cons,
        List.findSome?_cons, ih]
    · have hnone : statedPercent? line = none :=
        statedPercent?_eq_none_iff.2 fun h => absurd h hlabel
      rw [List.filter_cons_of_neg (by simpa using hlabel), List.findSome?_cons, hnone]
      exact ih

theorem summaryPercent?_eq_split (summary : List Char) :
    summaryPercent? summary = (Text.split '\n' summary).findSome? statedPercent? := by
  have hopen : (Text.openPiece summary).findSome? statedPercent? = none := by
    unfold Text.openPiece
    split
    · decide
    · rfl
  have hpieces := congrArg (List.findSome? id) (Text.map_split ignoresReturn_statedPercent? summary)
  rw [← List.map_append, List.findSome?_map, List.findSome?_map, List.findSome?_append] at hpieces
  simp only [Function.id_comp] at hpieces
  rw [hpieces, hopen, Option.or_none, summaryPercent?]

/-- **A percentage is found in the text up to a line feed**, or else in the text behind it. -/
theorem summaryPercent?_append (a b : List Char) :
    summaryPercent? (a ++ '\n' :: b) = (summaryPercent? a).or (summaryPercent? b) := by
  simp only [summaryPercent?_eq_split, Text.split_append, List.findSome?_append]

theorem summaryPercent?_eq_none_of_unlabelled {s : List Char} (h : ¬ linesLabel.toList <:+: s) :
    summaryPercent? s = none := by
  rw [summaryPercent?_eq_split, List.findSome?_eq_none_iff]
  intro piece hpiece
  refine statedPercent?_eq_none_iff.2 fun hlabel => ?_
  exact absurd (hlabel.trans (Text.infix_of_mem_split hpiece)) h

theorem summaryPercent?_eq_some_iff {summary : List Char} {x : Binary64} :
    summaryPercent? summary = some x ↔
      ∃ passed line later n, labelLines summary = passed ++ line :: later ∧
        (∀ l ∈ passed, ∀ m, States l m → ¬ m.IsAscii) ∧
        States line n ∧ n.IsAscii ∧ Binary64.NearestTo n.value x := by
  have hlabel {line : List Char} (h : line ∈ labelLines summary) : linesLabel.toList <:+: line := by
    simpa using (List.mem_filter.1 h).2
  rw [summaryPercent?_eq, List.findSome?_eq_some_iff]
  constructor
  · intro h
    obtain ⟨passed, line, later, hlines, hline, hpassed⟩ := h
    obtain ⟨-, n, hstates, hascii, hx⟩ := statedPercent?_eq_some_iff.1 hline
    refine ⟨passed, line, later, n, hlines, ?_, hstates, hascii, hx⟩
    intro l hl
    exact statedPercent?_eq_none_iff.1 (hpassed l hl) (hlabel (by rw [hlines]; simp [hl]))
  · intro h
    obtain ⟨passed, line, later, n, hlines, hpassed, hstates, hascii, hx⟩ := h
    refine ⟨passed, line, later, hlines, ?_, ?_⟩
    · exact statedPercent?_eq_some_iff.2 ⟨hlabel (by rw [hlines]; simp), n, hstates, hascii, hx⟩
    · intro l hl
      exact statedPercent?_eq_none_iff.2 fun _ => hpassed l hl

theorem summaryPercent?_eq_none_iff {summary : List Char} :
    summaryPercent? summary = none ↔
      ∀ line ∈ labelLines summary, ∀ n, States line n → ¬ n.IsAscii := by
  rw [summaryPercent?_eq, List.findSome?_eq_none_iff]
  constructor
  · intro h line hline
    exact statedPercent?_eq_none_iff.1 (h line hline) (by simpa using (List.mem_filter.1 hline).2)
  · intro h line hline
    exact statedPercent?_eq_none_iff.2 fun _ => h line hline

/-- A number with no digit in front of it is the one that the line states. -/
theorem states_of_no_digit {before behind : List Char} {n : Number}
    (hbefore : ∀ c ∈ before, Text.isDecimalDigit c = false) :
    States (before ++ (n.text ++ '%' :: behind)) n := by
  refine ⟨before, behind, rfl, ?_⟩
  intro before' n' behind' hline
  by_contra hlt
  -- The other number begins with a digit that stands in front of this one.
  obtain ⟨c, rest, htext, hc⟩ := n'.exists_text_eq_cons
  rw [htext] at hline
  have hread : before' ++ [c] <+: before ++ (n.text ++ '%' :: behind) :=
    ⟨rest ++ '%' :: behind', by rw [hline]; simp⟩
  have hfront : before' ++ [c] <+: before := by
    apply List.prefix_of_prefix_length_le hread (List.prefix_append _ _)
    simp only [List.length_append, List.length_singleton]
    omega
  have hdigit := hbefore c (hfront.subset (by simp))
  rw [hc] at hdigit
  cases hdigit

/-- **The percentage of a summary** is the binary64 number nearest to the first number of the first
line with the label on which that number is in ASCII digits, and is missing where there is no such
line. Text without the label can be put in or left out where lines begin. What follows the number on
its line or on later lines does not matter. -/
theorem first_stated_percent (summary : List Char) :
    (∀ x, summaryPercent? summary = some x ↔
      ∃ passed line later n, labelLines summary = passed ++ line :: later ∧
        (∀ l ∈ passed, ∀ m, States l m → ¬ m.IsAscii) ∧
        States line n ∧ n.IsAscii ∧ Binary64.NearestTo n.value x) ∧
    (summaryPercent? summary = none ↔
      ∀ line ∈ labelLines summary, ∀ n, States line n → ¬ n.IsAscii) ∧
    (∀ line m n, States line m → States line n → m = n) ∧
    (∀ other, labelLines other = labelLines summary →
      summaryPercent? other = summaryPercent? summary) ∧
    (∀ added, ¬ "lines......:".toList <:+: added →
      summaryPercent? (added ++ '\n' :: summary) = summaryPercent? summary ∧
      summaryPercent? (summary ++ '\n' :: added) = summaryPercent? summary ∧
      ∀ front, summaryPercent? (front ++ '\n' :: (added ++ '\n' :: summary)) =
        summaryPercent? (front ++ '\n' :: summary)) ∧
    ∀ before n behind later,
      labelLines summary = (before ++ (Number.text n ++ '%' :: behind)) :: later →
      (∀ c ∈ before, Text.isDecimalDigit c = false) → n.IsAscii →
        ∃ x, Binary64.NearestTo n.value x ∧ summaryPercent? summary = some x := by
  refine ⟨fun _ => summaryPercent?_eq_some_iff, summaryPercent?_eq_none_iff,
    fun _ _ _ => States.unique, ?_, ?_, ?_⟩
  · intro other hlines
    rw [summaryPercent?_eq, hlines, ← summaryPercent?_eq]
  · intro added hadded
    have hnone := summaryPercent?_eq_none_of_unlabelled hadded
    refine ⟨?_, ?_, fun front => ?_⟩
    · rw [summaryPercent?_append, hnone, Option.none_or]
    · rw [summaryPercent?_append, hnone, Option.or_none]
    · rw [summaryPercent?_append, summaryPercent?_append, summaryPercent?_append, hnone,
        Option.none_or]
  · intro before n behind later hlines hbefore hascii
    exact ⟨_, n.nearestTo_ofDecimal, summaryPercent?_eq_some_iff.2
      ⟨[], _, later, n, hlines, by simp, states_of_no_digit hbefore, hascii,
        n.nearestTo_ofDecimal⟩⟩

def eightyFive : Number where
  whole := "85".toList
  decimals? := some "5".toList
  whole_ne_nil := by decide
  whole_digits := List.all_eq_true.1 (by decide)
  decimals_digits := by
    intro d hd
    obtain rfl := Option.some.inj hd
    exact List.all_eq_true.1 (by decide)

/-- A summary with a second number on the line that counts and a percentage on another line. -/
def twoRates : List Char :=
  "  functions..: 9.1% (1 of 11)\n  lines......: 85.5% (123 of 144 lines)\n".toList

theorem first_stated_percent_twoRates :
    labelLines twoRates =
        ["  lines......: ".toList ++ (eightyFive.text ++ '%' :: " (123 of 144 lines)".toList)] ∧
      (∀ c ∈ "  lines......: ".toList, Text.isDecimalDigit c = false) ∧ eightyFive.IsAscii ∧
      ∃ x, Binary64.NearestTo eightyFive.value x ∧ summaryPercent? twoRates = some x := by
  have hlines : labelLines twoRates =
      ["  lines......: ".toList ++ (eightyFive.text ++ '%' :: " (123 of 144 lines)".toList)] := by
    decide +kernel
  have hnone : "  lines......: ".toList.all (fun c => !Text.isDecimalDigit c) = true := by decide
  have hbefore : ∀ c ∈ "  lines......: ".toList, Text.isDecimalDigit c = false := by
    intro c hc
    simpa using List.all_eq_true.1 hnone c hc
  have hascii : eightyFive.IsAscii := List.all_eq_true.1 (by decide)
  obtain ⟨-, -, -, -, -, hstated⟩ := first_stated_percent twoRates
  exact ⟨hlines, hbefore, hascii, hstated _ _ _ _ hlines hbefore hascii⟩

end Coverage
end StatusBadges
