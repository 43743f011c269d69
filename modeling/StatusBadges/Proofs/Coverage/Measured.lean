import StatusBadges.Proofs.Coverage.Schedule

/-!
# Measured or estimated

A percentage is called measured exactly when the history of the run shows that counters were
captured and summed up (`Measures`), and else it is the estimate for the files as the run leaves
them. The history has the commands of a measurement (`commands`), those that decide in their places
among them. The others matter only for what they do to the files (`calculate_congr`).
-/

namespace StatusBadges.Coverage

open Session

/-! ## The commands that decide -/

end StatusBadges.Coverage
