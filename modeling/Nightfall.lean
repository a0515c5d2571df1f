import Nightfall.Core.Prog
import Nightfall.Core.Lists
import Nightfall.Core.Handlers
import Nightfall.Core.Refusal
import Nightfall.Core.Pool
import Nightfall.Core.Async
import Nightfall.Core.Crash
import Nightfall.Core.Sql
import Nightfall.Core.Table
import Nightfall.Core.Contents
import Nightfall.Core.LastWins
import Nightfall.Core.Json
import Nightfall.Core.Paging
import Nightfall.Core.Dfs
import Nightfall.Core.Branches
import Nightfall.Core.Utf8
import Nightfall.Core.Entries
import Nightfall.Core.Values
import Nightfall.Core.WholeSteps
import Nightfall.Core.Linearize
import Nightfall.Core.KeyedList
import Nightfall.Core.Moves
import Nightfall.Core.Recent
import Nightfall.Core.JsonText
import Nightfall.L1Storage.Names
import Nightfall.L2Registry.Registry
import Nightfall.L2Registry.Schema
import Nightfall.L2Registry.Journal
import Nightfall.L3Flows.World
import Nightfall.L3Flows.Transactions
import Nightfall.L3Flows.Storage
import Nightfall.L3Flows.LivePhoto
import Nightfall.L3Flows.PairQueue
import Nightfall.L3Flows.Ingest
import Nightfall.L3Flows.Batch
import Nightfall.L3Flows.ThreadPool
import Nightfall.L3Flows.Operator
import Nightfall.L3Flows.HashImport
import Nightfall.L3Flows.SyncImport
import Nightfall.L3Flows.Effects
import Nightfall.L3Flows.Specs
import Nightfall.L3Flows.IngestSpecs
import Nightfall.L3Flows.OperatorSpecs
import Nightfall.L4System.System
import Nightfall.L4System.Encoding
import Nightfall.L4System.StoragePaths
import Nightfall.L4System.Steps
import Nightfall.L4System.Acceptance
import Nightfall.L4System.Audit
import Nightfall.L4System.AuditIds
import Nightfall.L4System.Imported
import Nightfall.L4System.DryRun
import Nightfall.L4System.CacheReaders
import Nightfall.L4System.HashCaches
import Nightfall.L4System.HashPlans
import Nightfall.L4System.Lifecycle
import Nightfall.L4System.Discard
import Nightfall.L4System.Prefilter
import Nightfall.L4System.Location
import Nightfall.L4System.Retention
import Nightfall.L4System.Roots
import Nightfall.L4System.Queues
import Nightfall.L4System.Purgeable
import Nightfall.L4System.FileTree
import Nightfall.L4System.Commits
import Nightfall.L4System.Pairs
import Nightfall.L4System.PairReject
import Nightfall.L4System.Reingest
import Nightfall.L5Recovery.Rerun
import Nightfall.L5Recovery.Replay
import Nightfall.L5Recovery.CrashPoints
import Nightfall.L5Recovery.Restore
import Nightfall.L5Recovery.Drift
import Nightfall.L5Recovery.Rotation
import Nightfall.L5Recovery.TornWrites
import Nightfall.L5Recovery.CleanBatches
import Nightfall.L5Recovery.RaisingCalls
import Nightfall.L5Recovery.SparedFiles
import Nightfall.L5Recovery.FailedBatch
import Nightfall.L5Recovery.AuditTriggers
import Nightfall.L5Recovery.Migration
import Nightfall.L6Concurrency.Races
import Nightfall.L6Concurrency.Workers
import Nightfall.L6Concurrency.Duplicates
import Nightfall.L6Concurrency.Accounting
import Nightfall.L6Concurrency.Scheduling
import Nightfall.L6Concurrency.Triage
import Nightfall.L7OneDrive.Auth
import Nightfall.L7OneDrive.Delta
import Nightfall.L7OneDrive.Reducer
import Nightfall.L7OneDrive.Backoff
import Nightfall.L7OneDrive.Client
import Nightfall.L7OneDrive.Poll
import Nightfall.L7OneDrive.PageLimit
import Nightfall.L7OneDrive.Resync
import Nightfall.L7OneDrive.StagingNames
import Nightfall.L7OneDrive.Retries
import Nightfall.L7OneDrive.GhostBreaker
import Nightfall.L7OneDrive.Cursor
import Nightfall.L7OneDrive.Handoff
import Nightfall.L7OneDrive.BoundaryManifest
import Nightfall.L7OneDrive.StateFiles
import Nightfall.L7OneDrive.SafeLogging
import Nightfall.L8Web.AuditService
import Nightfall.L8Web.AuditTimeline
import Nightfall.L8Web.StagingService
import Nightfall.L8Web.StagingQueue
import Nightfall.L8Web.ActiveIndex
import Nightfall.L8Web.Momentum
import Nightfall.L8Web.AuthFailures
import Nightfall.L8Web.TriageOverlap
import Nightfall.L8Web.Blocklist
import Nightfall.L8Web.BlocklistStore
import Nightfall.L8Web.Thumbnails
import Nightfall.L9Govctl.Manifest
import Nightfall.L9Govctl.WellFounded
import Nightfall.L9Govctl.Resolve
import Nightfall.L9Govctl.Executor
import Nightfall.L9Govctl.Fingerprints
import Nightfall.L10Metrics.DependencyCycles
import Nightfall.L10Mcp.Tasks
import Nightfall.L10Mcp.TaskHistory
import Nightfall.L10Mcp.TaskEnds
import Nightfall.L10Mcp.Framing
import Nightfall.L10Mcp.Session
