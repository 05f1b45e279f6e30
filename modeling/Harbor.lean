import Harbor.Concurrency.Transition
import Harbor.Concurrency.Program
import Harbor.Concurrency.RelyGuarantee
import Harbor.Concurrency.Channel
import Harbor.Data.Assoc
import Harbor.Data.Latest
import Harbor.Data.SortedSet
import Harbor.Data.Checks
import Harbor.Data.Decimal
import Harbor.Data.Split
import Harbor.Data.FirstByKey
import Harbor.Data.Loops
import Harbor.Data.Ranks
import Harbor.Data.Worklist
import Harbor.JobService.Stats
import Harbor.JobService.Scripts
import Harbor.JobService.StatusOrder
import Harbor.JobService.Tracking
import Harbor.JobService.Expiry
import Harbor.JobService.AckOrder
import Harbor.JobService.RoundTrip
import Harbor.JobService.Runner
import Harbor.JobService.StopRun
import Harbor.Quotas.Types
import Harbor.Quotas.Model
import Harbor.Quotas.Database
import Harbor.Quotas.DatabaseSafety
import Harbor.Quotas.DatabaseRuns
import Harbor.Quotas.Redis
import Harbor.Quotas.RedisSafety
import Harbor.Quotas.RedisRuns
import Harbor.Quotas.Flush
import Harbor.Quotas.FlushRuns
import Harbor.Quotas.Exactness
import Harbor.Quotas.Limits
import Harbor.Tasks.Model
import Harbor.Tasks.StatusEvents
import Harbor.Tasks.StatusCode
import Harbor.Tasks.Refresh
import Harbor.Tasks.RefreshSafety
import Harbor.Tasks.OutdatedSet
import Harbor.Tasks.RefreshPrograms
import Harbor.Tasks.RefreshRuns
import Harbor.Tasks.RunCount
import Harbor.Tasks.ScanRounds
import Harbor.Tasks.SweepManager
import Harbor.Tasks.ExecutionManager
import Harbor.Tasks.ExtraAttrs
import Harbor.Period.Model
import Harbor.Period.Safety
import Harbor.Period.Programs
import Harbor.Period.UnSchedule
import Harbor.Period.Enqueue
import Harbor.Period.FreshTracker
import Harbor.Period.Election
import Harbor.Orm.Model
import Harbor.Orm.AfterCommit
import Harbor.Orm.Contexts
import Harbor.Orm.Detached
import Harbor.Queries.Model
import Harbor.Queries.Secrets
import Harbor.Queries.Literals
import Harbor.Retention.Processor
import Harbor.Retention.ProcessorRuns
import Harbor.SystemArtifacts.Cleanup
import Harbor.Retention.Days
import Harbor.Retention.Schedules
import Harbor.Retention.Retain
import Harbor.Blobs.Model
import Harbor.Blobs.Requests
import Harbor.Blobs.Collector
import Harbor.Blobs.Safety
import Harbor.Blobs.SweepSafety
import Harbor.Blobs.Walk
import Harbor.Blobs.ProgramSafety
import Harbor.Blobs.Runs
import Harbor.Blobs.StatusProtocol
import Harbor.Scan.Reports
import Harbor.Scan.Gate
import Harbor.Scan.Converter
import Harbor.Subjects.Model
import Harbor.Subjects.Links
import Harbor.Tags.Immutable
import Harbor.Artifacts.Model
import Harbor.Artifacts.Deletion
import Harbor.Artifacts.Sweep
import Harbor.Artifacts.Closure
import Harbor.Artifacts.Repository
import Harbor.Artifacts.Walk
import Harbor.Artifacts.Attestations
import Harbor.Scan.Scannable
import Harbor.Uploads.Model
import Harbor.Uploads.Size
import Harbor.Replication.Transfer
import Harbor.Replication.Chunks
import Harbor.Replication.SingleActive
import Harbor.Replication.Push
import Harbor.Config.Store
import Harbor.Rbac.Policies
import Harbor.Rbac.RobotContext
import Harbor.Rbac.RobotHistory
import Harbor.Rbac.Tokens
import Harbor.Robots.Scopes
import Harbor.Robots.Api
import Harbor.Robots.Creation
import Harbor.Robots.Updates
import Harbor.Registry.Listing
import Harbor.Cached.Keys
import Harbor.Cached.Maintenance
import Harbor.Cached.Metadata
import Harbor.Cached.Managers
import Harbor.Cached.OwnWrites
import Harbor.Cached.Transactions
import Harbor.Sessions.Expiry
