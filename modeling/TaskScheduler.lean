import TaskScheduler.Library.Table
import TaskScheduler.Library.Machine
import TaskScheduler.Core.Json
import TaskScheduler.Core.Domain
import TaskScheduler.Core.Health
import TaskScheduler.Store.Schema
import TaskScheduler.Store.Schedules
import TaskScheduler.Store.Triggers
import TaskScheduler.Store.Rollups
import TaskScheduler.Store.Collection
import TaskScheduler.Store.Batches
import TaskScheduler.Store.Attempts
import TaskScheduler.Store.Health
import TaskScheduler.Store.Operations
import TaskScheduler.Store.Core
import TaskScheduler.Store.Effects
import TaskScheduler.Store.Frames
import TaskScheduler.Batches.Links
import TaskScheduler.Batches.Consistency
import TaskScheduler.Lifecycle.Life
import TaskScheduler.Lifecycle.Invariant
import TaskScheduler.Lifecycle.Budget
import TaskScheduler.Lifecycle.Cancellation
import TaskScheduler.Coordinator.System
import TaskScheduler.Coordinator.Refinement
import TaskScheduler.Coordinator.Runs
import TaskScheduler.Coordinator.Cancellation
import TaskScheduler.Coordinator.Batches
import TaskScheduler.Ingestion.Progress
import TaskScheduler.Ingestion.Chain
import TaskScheduler.Ingestion.Counters
import TaskScheduler.Ingestion.Finalization
import TaskScheduler.Ingestion.Workers
import TaskScheduler.Triggers.Idempotency
import TaskScheduler.Triggers.Origins
import TaskScheduler.Cron.Calendar
import TaskScheduler.Cron.Materialize
import TaskScheduler.Cron.Effects
import TaskScheduler.Cron.Invariant
import TaskScheduler.Cron.Fencing
import TaskScheduler.Cron.Pass
import TaskScheduler.Cron.CatchUp
import TaskScheduler.Cron.Isolation
import TaskScheduler.Settings.Registry
import TaskScheduler.Settings.Acknowledgement
import TaskScheduler.Agent.Ledger
import TaskScheduler.Agent.Lifetimes
import TaskScheduler.Rollups.Nodes
import TaskScheduler.Health.Poisoning
import TaskScheduler.Rollups.Schedules
import TaskScheduler.Batches.Tracking
import TaskScheduler.Batches.Completion
import TaskScheduler.Coordinator.Quarantine
import TaskScheduler.Library.Ranking
import TaskScheduler.Store.Queue
import TaskScheduler.Dispatch.Selection
import TaskScheduler.Dispatch.Cap
import TaskScheduler.Dispatch.Sessions
import TaskScheduler.Dispatch.Pass
import TaskScheduler.Dispatch.Capacity
import TaskScheduler.Health.Evidence
import TaskScheduler.Health.Inputs
import TaskScheduler.Health.Replay
import TaskScheduler.Health.Confirmation
import TaskScheduler.Ingestion.Holding
import TaskScheduler.Health.Thresholds
import TaskScheduler.Health.Nodes
import TaskScheduler.Lifecycle.Results
import TaskScheduler.Health.Handlers
import TaskScheduler.Health.Agreement
import TaskScheduler.Health.Reconciliation
import TaskScheduler.Agent.Outbox
import TaskScheduler.Coordinator.Retry
import TaskScheduler.Coordinator.Rejections
import TaskScheduler.Coordinator.Recovery
import TaskScheduler.Settings.Locks
import TaskScheduler.Library.Text
import TaskScheduler.Blueprint.Templates
import TaskScheduler.Library.SortedMap
import TaskScheduler.Blueprint.Bindings
import TaskScheduler.Blueprint.Snapshots
import TaskScheduler.Blueprint.Noninterference
import TaskScheduler.Blueprint.Acceptance
import TaskScheduler.Blueprint.Redaction
import TaskScheduler.Ingestion.Static
import TaskScheduler.Library.Digits
import TaskScheduler.Store.Timestamps
import TaskScheduler.Cron.Occurrences
import TaskScheduler.Library.Potential
import TaskScheduler.Ingestion.Leases
import TaskScheduler.Ingestion.Pacing
import TaskScheduler.Ingestion.Termination
import TaskScheduler.Coordinator.Audit
import TaskScheduler.Health.Verdicts
import TaskScheduler.Health.Scoring
import TaskScheduler.Health.Exoneration
import TaskScheduler.Library.Paging
import TaskScheduler.Ingestion.StaticPages
import TaskScheduler.Listing.Cursors
import TaskScheduler.Listing.Lists
import TaskScheduler.Listing.Stability
import TaskScheduler.Listing.Attempts
import TaskScheduler.Agent.SecretFiles
import TaskScheduler.Library.Chrono
import TaskScheduler.Settings.Deadlines
import TaskScheduler.Agent.Admission
import TaskScheduler.Blueprint.Merging
import TaskScheduler.Library.Utf8
import TaskScheduler.Executor.Output
import TaskScheduler.Settings.Node
import TaskScheduler.Settings.Pushes
import TaskScheduler.Dispatch.Streams
import TaskScheduler.Dispatch.HealthCache
import TaskScheduler.Executor.Process
import TaskScheduler.Coordinator.Authority
