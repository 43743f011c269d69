import StatusBadges.Text.Numeral
/-!
# Clock time

The text of a moment that is given in seconds since the beginning of 1970, in universal time. A
year is taken to begin in March, so that the leap day is its last day.
-/

namespace StatusBadges.Clock

/-- The days from March 1 of the year 0 to the beginning of 1970. -/
def daysBefore1970 : Nat := 719468

/-- The days of four hundred years, after which the calendar repeats. -/
def daysOfCycle : Nat := 146097

/-- The year, counted from March, in which a day of a cycle lies. -/
def yearInCycle (day : Nat) : Nat :=
  (day - day / 1460 + day / 36524 - day / (daysOfCycle - 1)) / 365

/-- The year, month and day of a number of days since the beginning of 1970. -/
def date (days : Nat) : Nat × Nat × Nat :=
  let shifted := days + daysBefore1970
  let inCycle := shifted % daysOfCycle
  let year := yearInCycle inCycle
  let inYear := inCycle - (365 * year + year / 4 - year / 100)
  let month := (5 * inYear + 2) / 153
  let day := inYear - (153 * month + 2) / 5 + 1
  let years := 400 * (shifted / daysOfCycle) + year
  if month < 10 then (years, month + 3, day) else (years + 1, month - 9, day)

/-- A number with so many digits at least. -/
def padded (width n : Nat) : List Char :=
  let digits := Text.numeral n
  List.replicate (width - digits.length) '0' ++ digits

/-- The text of a moment: date, time of day and the offset zero. -/
def text (seconds : Nat) : String :=
  let (year, month, day) := date (seconds / 86400)
  let time := seconds % 86400
  String.ofList <|
    padded 4 year ++ '-' :: padded 2 month ++ '-' :: padded 2 day ++ 'T' :: padded 2 (time / 3600)
      ++ ':' :: padded 2 (time / 60 % 60) ++ ':' :: padded 2 (time % 60) ++ "+00:00".toList

/-- Four hundred years after it, a day has the same month and the same day of the month. -/
theorem date_add_daysOfCycle (days : Nat) :
    date (days + daysOfCycle) = ((date days).1 + 400, (date days).2) := by
  have h : (days + daysOfCycle + daysBefore1970) % daysOfCycle =
      (days + daysBefore1970) % daysOfCycle := by
    rw [Nat.add_right_comm, Nat.add_mod_right]
  have hq : (days + daysOfCycle + daysBefore1970) / daysOfCycle =
      (days + daysBefore1970) / daysOfCycle + 1 := by
    rw [Nat.add_right_comm, Nat.add_div_right _ (by decide)]
  simp only [date, h, hq]
  split <;> simp only [Prod.mk.injEq, and_true] <;> omega

end StatusBadges.Clock
