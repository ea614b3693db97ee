import UkAqOps.Outbox.Resolution
import UkAqOps.Lib.Effects
import UkAqOps.Scheduler.Cron
import UkAqOps.Scheduler.Job
import UkAqOps.Scheduler.Worker
import UkAqOps.Scheduler.History
import UkAqOps.Scheduler.Interleaving
import UkAqOps.Prune.Evidence
import UkAqOps.Prune.Deletion
import UkAqOps.Prune.Atomicity
import UkAqOps.Aqi.Levels
import UkAqOps.Aqi.Grid
import UkAqOps.Aqi.Publication
import UkAqOps.Aqi.Batching
import UkAqOps.Js.Json
import UkAqOps.Lib.Heap
import UkAqOps.Lib.Scheduling
import UkAqOps.Publication.Objects
import UkAqOps.Publication.Eligible
import UkAqOps.Publication.Plan
import UkAqOps.Publication.Resolution
import UkAqOps.Publication.Order
import UkAqOps.Publication.Finalize
import UkAqOps.Publication.Publishing
import UkAqOps.Publication.InFlight
import UkAqOps.Publication.Runs
import UkAqOps.StationHistory.Continuity
import UkAqOps.StationHistory.Requests
import UkAqOps.StationHistory.Calculated
import UkAqOps.StationHistory.Store
import UkAqOps.StationHistory.Hours
import UkAqOps.StationHistory.Rows
import UkAqOps.StationHistory.Windows
import UkAqOps.StationHistory.Agreement
import UkAqOps.Hierarchy.Aggregate
import UkAqOps.Registry.Latest
import UkAqOps.Registry.Updates
import UkAqOps.Prune.CommittedHistory
import UkAqOps.Prune.Admission
import UkAqOps.Js.Parse
import UkAqOps.Lib.Restart
import UkAqOps.StationHistory.AqiChunks
import UkAqOps.StationHistory.Tiles
import UkAqOps.Maintenance.Answers
import UkAqOps.Maintenance.Run
import UkAqOps.Maintenance.Turns
import UkAqOps.Maintenance.Authority
import UkAqOps.Prune.Batch
import UkAqOps.Prune.Agreement
import UkAqOps.Backup.Checkpoints
import UkAqOps.Backup.Sync
import UkAqOps.Backup.Standing
import UkAqOps.Backup.Soundness
import UkAqOps.Backup.Copying
import UkAqOps.Backup.Rounds
import UkAqOps.Backup.Loading
import UkAqOps.Backup.CoreRuns
import UkAqOps.Backup.BindingRuns
import UkAqOps.Backup.Skips
import UkAqOps.Lib.Periods
import UkAqOps.Verification.Overlay
import UkAqOps.Verification.Resolution
import UkAqOps.Verification.Evidence
import UkAqOps.Verification.Ratification
import UkAqOps.Aqi.TextOrder
import UkAqOps.Aqi.HourlyRows
import UkAqOps.Aqi.Yield
import UkAqOps.Scheduler.Ledger
import UkAqOps.Scheduler.LedgerRuns
import UkAqOps.Js.Split
import UkAqOps.Scheduler.CronGrammar
import UkAqOps.Scheduler.CronFields
import UkAqOps.Scheduler.CronTimes
import UkAqOps.Scheduler.CronAgreement
import UkAqOps.Scheduler.CronDialects
import UkAqOps.ContentHash.Rows
import UkAqOps.Lib.Framing
import UkAqOps.ContentHash.Lines
import UkAqOps.ContentHash.Streams
import UkAqOps.Lib.Chunks
import UkAqOps.TargetWriter.Packing
import UkAqOps.TargetWriter.Splitting
import UkAqOps.TargetWriter.PhysicalRows
import UkAqOps.Lib.Intervals
import UkAqOps.Stitch.FillPlan
import UkAqOps.SteadyState.EvidenceCache
import UkAqOps.Lib.Gathering
import UkAqOps.RandomAccess.Coalesce
import UkAqOps.Lib.WorkerPool
import UkAqOps.RandomAccess.Prefetch
import UkAqOps.Js.PosixPath
import UkAqOps.StaleParquet.References
import UkAqOps.StaleParquet.Plan
import UkAqOps.StaleParquet.Safety
import UkAqOps.LatestSnapshot.LatestState
import UkAqOps.Js.JsonForm
import UkAqOps.Verification.NormalForm
import UkAqOps.Verification.Manifest
import UkAqOps.Verification.Canonicity
import UkAqOps.BindingSource.Keys
import UkAqOps.BindingSource.Manifests
import UkAqOps.Backup.BindingInventory
import UkAqOps.Backup.BindingAgreement
import UkAqOps.Backup.BindingConsistency
import UkAqOps.Backup.BindingHistory
import UkAqOps.ContentHash.Ratification
import UkAqOps.ContentHash.RatificationLaws
import UkAqOps.Lib.Rotation
import UkAqOps.PruneAudit.Selection
import UkAqOps.PruneAudit.Store
import UkAqOps.PruneAudit.Fairness
import UkAqOps.ContinuityFamilies.Families
import UkAqOps.ContinuityFamilies.Publishing
import UkAqOps.ContinuityFamilies.NormalRows
import UkAqOps.ContinuityFamilies.Acceptance
import UkAqOps.ContinuityFamilies.LastDays
import UkAqOps.Verification.DailyStatus
import UkAqOps.Verification.DailyAgreement
import UkAqOps.Lib.Bucketing
import UkAqOps.WhoDaily.HourEnding
import UkAqOps.WhoDaily.Preparation
import UkAqOps.WhoDaily.Related
import UkAqOps.WhoDaily.Agreement
import UkAqOps.Lib.Holes
import UkAqOps.StationHistory.Gaps
import UkAqOps.StationHistory.GapRows
import UkAqOps.StationHistory.GapAgreement
import UkAqOps.Lib.Allowance
import UkAqOps.StationHistory.PagedReads
import UkAqOps.StationHistory.PagedAgreement
import UkAqOps.StationHistory.ChunkAgreement
import UkAqOps.Js.UriPath
import UkAqOps.Lib.Scanning
import UkAqOps.R2.ObjectKeys
import UkAqOps.R2.Entities
import UkAqOps.R2.StoreXml
import UkAqOps.R2.DeleteAnswers
import UkAqOps.R2.KeyAgreement
import UkAqOps.HistoryApi.Worker
import UkAqOps.Lib.CursorPages
import UkAqOps.HistoryApi.Reads
import UkAqOps.HistoryApi.Paging
import UkAqOps.HistoryApi.PagingAgreement
import UkAqOps.HistoryApi.WholeSeconds
import UkAqOps.Js.Spread
import UkAqOps.ApplyJournal.Persistence
import UkAqOps.ApplyJournal.Chain
import UkAqOps.ApplyJournal.Runs
import UkAqOps.CronHealth.Tracker
import UkAqOps.Lib.MaximalRuns
import UkAqOps.Publication.Settling
import UkAqOps.Publication.Starting
import UkAqOps.CronHealth.Episodes
import UkAqOps.CronHealth.Matching
import UkAqOps.CronHealth.Confluence
import UkAqOps.Publication.JsonChunks
