import StatusBadges.Binary64.Decimal
import StatusBadges.Text.DecimalDigit
import StatusBadges.Text.Search
/-!
# Coverage summaries

The coverage tool sums up in lines such as `  lines......: 85.5% (123 of 144 lines)`. The percentage
of a line is the first number in it that a percent sign follows. A line whose percentage is written
with digits that are not ASCII says nothing.
-/

namespace StatusBadges.Coverage

/-- What a line about line coverage holds, as a text. -/
def linesLabel : String := "lines......:"

/-- The digits before and after the point of a percentage at the front of a text: digits, a point
and more digits at will, and a percent sign. -/
def percentageHere? (s : List Char) : Option (List Char × List Char) :=
  let whole := s.takeWhile Text.isDecimalDigit
  if whole.isEmpty then none
  else
    match s.dropWhile Text.isDecimalDigit with
    | '%' :: _ => some (whole, [])
    | '.' :: rest =>
      match rest.dropWhile Text.isDecimalDigit with
      | '%' :: _ => some (whole, rest.takeWhile Text.isDecimalDigit)
      | _ => none
    | _ => none

def percentage? : List Char → Option (List Char × List Char)
  | [] => none
  | c :: rest =>
    match percentageHere? (c :: rest) with
    | some parts => some parts
    | none => percentage? rest

/-- The value of a percentage in ASCII digits. -/
def percentageValue? (parts : List Char × List Char) : Option Binary64 :=
  if (parts.1 ++ parts.2).all Char.isDigit then some (.ofDecimal parts.1 parts.2) else none

def statedPercent? (line : List Char) : Option Binary64 :=
  if Text.occurs linesLabel.toList line then (percentage? line).bind percentageValue? else none

/-- The percentage of a summary: that of the first line that states one. -/
def summaryPercent? (summary : List Char) : Option Binary64 :=
  (Text.lines summary).findSome? statedPercent?

end StatusBadges.Coverage
