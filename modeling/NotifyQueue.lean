import NotifyQueue.Lib.Runs
import NotifyQueue.Repositories.Schema
import NotifyQueue.Lib.Aborts
import NotifyQueue.Repositories.Jobs
import NotifyQueue.Verified.Slices
import NotifyQueue.Repositories.JobSystem
import NotifyQueue.Verified.SliceSteps
import NotifyQueue.Lib.Fencing
import NotifyQueue.Verified.ClaimFencing
import NotifyQueue.Verified.Coherence
import NotifyQueue.Verified.Conflicts
import NotifyQueue.Verified.Lifecycle
import NotifyQueue.Lib.SortedSets
import NotifyQueue.Services.RateLimiter
import NotifyQueue.Verified.Outbox
import NotifyQueue.Config
import NotifyQueue.Domain.Backoff
import NotifyQueue.Verified.SlidingWindow
import NotifyQueue.Worker.Loop
import NotifyQueue.Verified.WorkerSteps
import NotifyQueue.Verified.Leases
import NotifyQueue.Verified.SendSafety
import NotifyQueue.Verified.SharedSlots
import NotifyQueue.Verified.Refunds
import NotifyQueue.Cache.JobCache
import NotifyQueue.Services.Scheduler
import NotifyQueue.Verified.Registrations
import NotifyQueue.Verified.ScheduleSteps
import NotifyQueue.Verified.CacheRefinement
import NotifyQueue.Verified.IdempotentScheduling
import NotifyQueue.Verified.DueTimes
import NotifyQueue.Verified.SoloRuns
import NotifyQueue.Verified.Deferrals
import NotifyQueue.Senders.MockSender
import NotifyQueue.Verified.EffectivelyOnce
import NotifyQueue.Verified.ExactWaits
import NotifyQueue.Lib.AlignedWindows
import NotifyQueue.Repositories.RateLimitBuckets
import NotifyQueue.Verified.FixedWindow
import NotifyQueue.Verified.Outages
import NotifyQueue.Repositories.Webhooks
import NotifyQueue.Worker.WebhookDispatcher
import NotifyQueue.Lib.Draining
import NotifyQueue.Verified.WebhookSteps
import NotifyQueue.Verified.WebhookCap
import NotifyQueue.Verified.WebhookRows
import NotifyQueue.Verified.SettledWebhooks
import NotifyQueue.Cache.JobTexts
import NotifyQueue.Verified.CacheTexts
import NotifyQueue.Lib.Versions
import NotifyQueue.Cache.CacheSystem
import NotifyQueue.Verified.CacheSteps
import NotifyQueue.Verified.VersionedCache
import NotifyQueue.Verified.StaleStatus
import NotifyQueue.Repositories.Queries
import NotifyQueue.Verified.RetryCounts
import NotifyQueue.Verified.ClaimOrder
import NotifyQueue.Services.JobReads
import NotifyQueue.Verified.TornReads
import NotifyQueue.Lib.Paging
import NotifyQueue.Verified.DeadLetterPages
import NotifyQueue.Verified.RetryDelays
import NotifyQueue.Lib.ExpiringLocks
import NotifyQueue.Cache.MetricsCache
import NotifyQueue.Verified.RebuildLock
import NotifyQueue.Verified.LoneCalls
import NotifyQueue.Verified.LifecycleTraces
import NotifyQueue.Verified.ClaimLedger
import NotifyQueue.Lib.References
import NotifyQueue.Verified.MetricTotals
import NotifyQueue.Verified.LastAttempts
import NotifyQueue.Services.Metrics
import NotifyQueue.Verified.ServedMetrics
import NotifyQueue.Lib.Json
import NotifyQueue.Domain.Fingerprint
import NotifyQueue.Verified.Fingerprints
import NotifyQueue.Repositories.Receipts
import NotifyQueue.Api.Mock
import NotifyQueue.Verified.WebhookReceipts
import NotifyQueue.Worker.Reaper
import NotifyQueue.Verified.ReaperPasses
import NotifyQueue.Lib.Overtaking
import NotifyQueue.Verified.Reclaims
import NotifyQueue.Verified.ClaimWaits
import NotifyQueue.Verified.WebhookWaits
import NotifyQueue.Verified.AttemptTimeline
import NotifyQueue.Verified.HeldClaims
import NotifyQueue.Worker.Process
import NotifyQueue.Verified.ProcessSteps
import NotifyQueue.Verified.GracefulStop
import NotifyQueue.Verified.StopBound
