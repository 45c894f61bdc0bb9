import LeasedWork.Diagnostic
import LeasedWork.Engine.Action
import LeasedWork.Engine.Disposition
import LeasedWork.Engine.Execution
import LeasedWork.Engine.Fleet
import LeasedWork.Engine.Handler
import LeasedWork.Engine.Heartbeat
import LeasedWork.Engine.Invocation
import LeasedWork.Engine.PollLoop
import LeasedWork.Engine.Progress
import LeasedWork.Engine.Service
import LeasedWork.Engine.Site
import LeasedWork.Error
import LeasedWork.Event
import LeasedWork.Failure
import LeasedWork.Host.Conductor
import LeasedWork.Host.Ensemble
import LeasedWork.Host.EventLog
import LeasedWork.Host.Listener
import LeasedWork.Host.Runs
import LeasedWork.Host.Server
import LeasedWork.Host.Timeline
import LeasedWork.Host.Waiting
import LeasedWork.Host.Watch
import LeasedWork.Job
import LeasedWork.Job.Text
import LeasedWork.Json.Member
import LeasedWork.Json.Reader
import LeasedWork.Json.Tree
import LeasedWork.Json.Value
import LeasedWork.Json.Writer
import LeasedWork.LogFilter
import LeasedWork.LogFilter.Directive
import LeasedWork.LogFilter.FieldTest
import LeasedWork.LogLine
import LeasedWork.LogLine.Text
import LeasedWork.Main
import LeasedWork.Number.Double
import LeasedWork.Number.Literal
import LeasedWork.Number.Nearest
import LeasedWork.Number.Power
import LeasedWork.Number.Shortest
import LeasedWork.Proofs.Dispatch.Resolution
import LeasedWork.Proofs.Dispatch.StatedKind
import LeasedWork.Proofs.Engine.Breakdown
import LeasedWork.Proofs.Engine.Calls
import LeasedWork.Proofs.Engine.Cancellation
import LeasedWork.Proofs.Engine.Conduct
import LeasedWork.Proofs.Engine.Course
import LeasedWork.Proofs.Engine.Deed
import LeasedWork.Proofs.Engine.Finalization
import LeasedWork.Proofs.Engine.Journey
import LeasedWork.Proofs.Engine.Polling
import LeasedWork.Proofs.Engine.Promptness
import LeasedWork.Proofs.Engine.Rounds
import LeasedWork.Proofs.Engine.SoftFailure
import LeasedWork.Proofs.Engine.Tokens
import LeasedWork.Proofs.Engine.Walk
import LeasedWork.Proofs.Host.Abandonment
import LeasedWork.Proofs.Host.Announcements
import LeasedWork.Proofs.Host.Capacity
import LeasedWork.Proofs.Host.Closing
import LeasedWork.Proofs.Host.Conduct
import LeasedWork.Proofs.Host.Confinement
import LeasedWork.Proofs.Host.Containment
import LeasedWork.Proofs.Host.Deadlines
import LeasedWork.Proofs.Host.Departure
import LeasedWork.Proofs.Host.Draining
import LeasedWork.Proofs.Host.Exhaustion
import LeasedWork.Proofs.Host.Fleets
import LeasedWork.Proofs.Host.Gates
import LeasedWork.Proofs.Host.Guarding
import LeasedWork.Proofs.Host.Idling
import LeasedWork.Proofs.Host.Interleaving
import LeasedWork.Proofs.Host.Isolation
import LeasedWork.Proofs.Host.Kinship
import LeasedWork.Proofs.Host.Opening
import LeasedWork.Proofs.Host.Operations
import LeasedWork.Proofs.Host.Origin
import LeasedWork.Proofs.Host.Outcome
import LeasedWork.Proofs.Host.Parallelism
import LeasedWork.Proofs.Host.Punctuality
import LeasedWork.Proofs.Host.Reach
import LeasedWork.Proofs.Host.Results
import LeasedWork.Proofs.Host.ScanCadence
import LeasedWork.Proofs.Host.Schedule
import LeasedWork.Proofs.Host.Scheduler
import LeasedWork.Proofs.Host.Settlement
import LeasedWork.Proofs.Host.Startup
import LeasedWork.Proofs.Host.Stillness
import LeasedWork.Proofs.Host.Telling
import LeasedWork.Proofs.Host.Tending
import LeasedWork.Proofs.Host.Upkeep
import LeasedWork.Proofs.Host.Walks
import LeasedWork.Proofs.Job.Results
import LeasedWork.Proofs.Job.RoundTrip
import LeasedWork.Proofs.Json.Leaves
import LeasedWork.Proofs.Json.Members
import LeasedWork.Proofs.Json.Texts
import LeasedWork.Proofs.Json.Values
import LeasedWork.Proofs.Number.Rounding
import LeasedWork.Proofs.Settings.BeatPeriod
import LeasedWork.Proofs.Settings.Planting
import LeasedWork.Proofs.Settings.QueueList
import LeasedWork.Proofs.Settings.Spelling
import LeasedWork.Proofs.Store.Chronicle
import LeasedWork.Proofs.Store.Drain
import LeasedWork.Proofs.Store.Entries
import LeasedWork.Proofs.Store.Exclusivity
import LeasedWork.Proofs.Store.Handout
import LeasedWork.Proofs.Store.Holding
import LeasedWork.Proofs.Store.Lifecycle
import LeasedWork.Proofs.Store.Refusal
import LeasedWork.Proofs.Store.RetryBudget
import LeasedWork.Proofs.Store.Separation
import LeasedWork.Proofs.Store.Touch
import LeasedWork.Proofs.Store.Verdict
import LeasedWork.Proofs.Text.Digits
import LeasedWork.Proofs.Time.Calendar
import LeasedWork.Proofs.Time.Delays
import LeasedWork.Proofs.Time.Stamps
import LeasedWork.Queue
import LeasedWork.Registry
import LeasedWork.Settings.Environment
import LeasedWork.Settings.HostedQueue
import LeasedWork.Settings.LogOutput
import LeasedWork.Settings.Seed
import LeasedWork.Settings.Timing
import LeasedWork.Settings.VariableFile
import LeasedWork.Settings.WorkerName
import LeasedWork.Status
import LeasedWork.Store
import LeasedWork.Store.Operation
import LeasedWork.Text.Alphanumeric
import LeasedWork.Text.Blank
import LeasedWork.Text.Digits
import LeasedWork.Text.Pattern
import LeasedWork.Text.Pattern.Reader
import LeasedWork.Time.Calendar
import LeasedWork.Time.Duration
import LeasedWork.Time.Instant
import LeasedWork.Time.Jitter
import LeasedWork.Time.Stamp
import LeasedWork.Time.Timer
import LeasedWork.Token
