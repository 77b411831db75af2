import Timetable.Cluster.Operator
import Timetable.Controller.Startup
import Timetable.Json.Printer
import Timetable.Manifest.Folder
import Timetable.Proofs.Calendar.Date
import Timetable.Proofs.Calendar.Instant
import Timetable.Proofs.Calendar.Lenient
import Timetable.Proofs.Calendar.Rfc3339
import Timetable.Proofs.Controller.Aborting
import Timetable.Proofs.Controller.Activity
import Timetable.Proofs.Controller.AtMostOnce
import Timetable.Proofs.Controller.Boundary
import Timetable.Proofs.Controller.Calls
import Timetable.Proofs.Controller.Cascade
import Timetable.Proofs.Controller.Courses
import Timetable.Proofs.Controller.Effects
import Timetable.Proofs.Controller.Enduring
import Timetable.Proofs.Controller.Executing
import Timetable.Proofs.Controller.Interleaving
import Timetable.Proofs.Controller.Lateness
import Timetable.Proofs.Controller.Launching
import Timetable.Proofs.Controller.Ledger
import Timetable.Proofs.Controller.Notices
import Timetable.Proofs.Controller.Overlap
import Timetable.Proofs.Controller.Pacing
import Timetable.Proofs.Controller.Pruning
import Timetable.Proofs.Controller.Removing
import Timetable.Proofs.Controller.Retrying
import Timetable.Proofs.Controller.Settled
import Timetable.Proofs.Controller.Stopping
import Timetable.Proofs.Controller.WholePass
import Timetable.Proofs.Cron.Deadline
import Timetable.Proofs.Cron.Durations
import Timetable.Proofs.Cron.Grammar
import Timetable.Proofs.Cron.LeapDays
import Timetable.Proofs.Cron.Limits
import Timetable.Proofs.Cron.MissedFires
import Timetable.Proofs.Cron.NextFire
import Timetable.Proofs.Cron.Periods
import Timetable.Proofs.Cron.Progress
import Timetable.Proofs.Cron.Strides
import Timetable.Proofs.Cron.WakeUp
import Timetable.Proofs.Cron.Walk
import Timetable.Proofs.Identity.Key
import Timetable.Proofs.Identity.Name
import Timetable.Proofs.Identity.Uid
import Timetable.Proofs.Manifest.Members
import Timetable.Proofs.Manifest.RoundTrip
import Timetable.Proofs.Object.Children
import Timetable.Proofs.Object.Launch
import Timetable.Proofs.Object.Naming
import Timetable.Proofs.Object.Retention
import Timetable.Proofs.Object.Statuses
import Timetable.Proofs.Object.Templates
import Timetable.Proofs.Queue.Backoff
import Timetable.Proofs.Queue.Deadlines
import Timetable.Proofs.Queue.Draining
import Timetable.Proofs.Queue.Exclusion
import Timetable.Proofs.Queue.History
import Timetable.Proofs.Queue.Operations
import Timetable.Proofs.Queue.Sleepers
import Timetable.Proofs.Queue.Strays
import Timetable.Proofs.Replica.Current
import Timetable.Proofs.Replica.Index
import Timetable.Proofs.Replica.Objects
import Timetable.Proofs.Replica.Ownership
import Timetable.Proofs.Replica.Reflection
import Timetable.Proofs.Replica.Settling
import Timetable.Proofs.Replica.Staleness
import Timetable.Proofs.Replica.Telling
import Timetable.Proofs.Replica.Views
import Timetable.Proofs.Replica.Waking
import Timetable.Proofs.Store.Atomicity
import Timetable.Proofs.Store.Chronicle
import Timetable.Proofs.Store.Deletion
import Timetable.Proofs.Store.Delivery
import Timetable.Proofs.Store.Identity
import Timetable.Proofs.Store.Journal
import Timetable.Proofs.Store.Keeping
import Timetable.Proofs.Store.Lineage
import Timetable.Proofs.Store.Listing
import Timetable.Proofs.Store.Requests
import Timetable.Proofs.Store.Seeding
import Timetable.Proofs.Store.Watching
import Timetable.Proofs.Text.Numeral
import Timetable.Proofs.Text.Split
import Timetable.Queue.Waiting
import Timetable.Replica.Script
import Timetable.Settings
