import StatusBadges.Main
import StatusBadges.Text.Search
import StatusBadges.Proofs.Path
import StatusBadges.Proofs.Storage.Writing
import StatusBadges.Proofs.Json.RoundTrip
import StatusBadges.Proofs.Command.History
import StatusBadges.Proofs.Storage.Removal
import StatusBadges.Proofs.Coverage.Calculation
import StatusBadges.Proofs.Coverage.Measured
import StatusBadges.Proofs.Coverage.Deletion
import StatusBadges.Proofs.Storage.Joined
import StatusBadges.Proofs.Command.Paths
import StatusBadges.Proofs.Pipeline
import StatusBadges.Proofs.Readme.Fresh
import StatusBadges.Proofs.Readme.Passes
import StatusBadges.Proofs.Readme.Survival
import StatusBadges.Proofs.Readme.WellFormed
import StatusBadges.Proofs.Badge
import StatusBadges.Proofs.Readme.Repetition
import StatusBadges.Proofs.FailedRuns
import StatusBadges.Proofs.CommandLine.DefaultCommand
import StatusBadges.Proofs.Coverage.Tidiness
import StatusBadges.Proofs.Coverage.Census
import StatusBadges.Proofs.Coverage.Schedule
import StatusBadges.Proofs.Coverage.Leftovers
import StatusBadges.Proofs.Coverage.Freshness
import StatusBadges.Proofs.Path.Order
import StatusBadges.Proofs.Storage.Arrival
import StatusBadges.Proofs.Storage.Search
import StatusBadges.Proofs.Sources
import StatusBadges.Proofs.Observation
import StatusBadges.Proofs.Sources.Walk
import StatusBadges.Proofs.Manifest
import StatusBadges.Proofs.Coverage.CleanReport
import StatusBadges.Proofs.Text
import StatusBadges.Proofs.Build
import StatusBadges.Proofs.Coverage.Roles
import StatusBadges.Proofs.TestSuite
import StatusBadges.Proofs.BadgeSet
import StatusBadges.Proofs.Badge.Escapes
import StatusBadges.Proofs.BadgeRecord
import StatusBadges.Proofs.Streams
import StatusBadges.Proofs.Text.Leftmost
import StatusBadges.Proofs.Manifest.Version
import StatusBadges.Proofs.Manifest.Entries
import StatusBadges.Proofs.Binary64.Rounding
import StatusBadges.Proofs.Coverage.Percentage
import StatusBadges.Proofs.Binary64.Tenths
import StatusBadges.Proofs.Coverage.Color
import StatusBadges.Proofs.Readme.Replacement
import StatusBadges.Proofs.Coverage.Counts
import StatusBadges.Proofs.Binary64.Arithmetic
import StatusBadges.Proofs.Coverage.Estimate
