import Reiver.Pond.Query.PredicateSplitter
import Reiver.Pond.Query.FederatedFilter
import Reiver.Core.Billing.SubscriptionLock
import Reiver.Pond.PipelineRun
import Reiver.Lib.HashChain
import Reiver.Pond.Sync.BlockchainSync
import Reiver.Pond.Query.DateSound
import Reiver.Flow.Gateway.CacheKeys
import Reiver.Flow.Gateway.ExfiltrationWindow
import Reiver.Lib.Regex
import Reiver.Pond.WalIndex.EntryCodec
import Reiver.Pond.WalIndex.EntryBytes
import Reiver.Pond.PipelineDag
import Reiver.Lib.Kahn
import Reiver.Pond.WalIndex.BlockElimination
import Reiver.Pond.TableFormats.Delta
import Reiver.Lib.AddRemoveLog
import Reiver.Pond.Query.BloomPushdown
import Reiver.Lib.Bytes
import Reiver.Pond.Indexes.PrefixLookup
import Reiver.Lib.PrefixRange
import Reiver.Pond.Sync.DateBuckets
import Reiver.Lib.Int64
import Reiver.Flow.Gateway.StreamSummaries
import Reiver.Flow.Gateway.ExecutionCalls
import Reiver.Flow.Gateway.HalfOpen
import Reiver.Flow.Gateway.Spotlighting
import Reiver.Pond.Pgwire.Dialect
import Reiver.Website.MfaCodes
import Reiver.Website.RecoveryText
import Reiver.Flow.Gateway.PromptConfig
import Reiver.Flow.Gateway.PromptVariables
import Reiver.Pond.Sync.EventValues
import Reiver.Pond.Derived.Refresh
import Reiver.Lib.Windows
import Reiver.Core.Llm.OnePrice
import Reiver.Core.Llm.Pricing
import Reiver.Pond.Supertypes
import Reiver.Pond.TypeValues
import Reiver.Pond.CoercionOrder
import Reiver.Pond.CoercionRules
import Reiver.Pond.Coercion
import Reiver.Pond.FieldJson
import Reiver.Watch.FingerprintsApart
import Reiver.Lib.Fields
import Reiver.Pond.Query.PredicatesWeaken
import Reiver.Pond.Query.FilterMeaning
import Reiver.Pond.Query.NormalizeKept
import Reiver.Pond.Query.NormalizeQuery
import Reiver.Pond.Query.LikeFaithful
import Reiver.Pond.Query.Predicates
import Reiver.Lib.LikePattern
import Reiver.Core.Promql.TopkBottomk
import Reiver.Lib.StableSort
import Reiver.Core.Promql.ExtrapolatedRate
import Reiver.Core.Promql.HistogramQuantile
import Reiver.Watch.Absence
import Reiver.Herd.PushTriggers
import Reiver.Watch.WordsReplaced
import Reiver.Watch.PlainForm
import Reiver.Pond.Query.ColumnPruning
import Reiver.Lib.Dict
import Reiver.Pond.Indexes.SidecarStats
import Reiver.Pond.Indexes.SidecarSound
import Reiver.Lib.Binary64
import Reiver.Core.Promql.RangeExact
import Reiver.Core.Promql.Selection
import Reiver.Lib.PartitionPoint
import Reiver.Core.Promql.SeriesDivide
import Reiver.Pond.Indexes.CacheLimits
import Reiver.Pond.Indexes.SmartBuilder
import Reiver.Lib.JsonValue
import Reiver.Pond.Query.DateExtraction
import Reiver.Pond.Query.DateArithmetic
import Reiver.Pond.Query.DateValues
import Reiver.Lib.DayNumber
import Reiver.Pond.Indexes.BlobDecoders
import Reiver.Pond.Query.SkipSound
import Reiver.Pond.Query.SkipSatisfied
import Reiver.Pond.Query.SkipExtraction
import Reiver.Pond.Query.WhereExpr
import Reiver.Lib.ThreeValued
import Reiver.Website.MfaLockout
import Reiver.Pond.Sync.ParquetRewriter
import Reiver.Pond.Sync.ParquetReplay
import Reiver.Lib.ChangeLog
import Reiver.Pond.WalIndex.TwoPhase
import Reiver.Pond.WalIndex.InvertedIndex
import Reiver.Pond.WalIndex.Blocks
import Reiver.Pond.Query.DateRangeFiles
import Reiver.Pond.Query.DateRange
import Reiver.Lib.LengthPrefixed
import Reiver.Lib.Calendar
import Reiver.Lib.Glob
import Reiver.Pond.Sync.MergeByName
import Reiver.Pond.Sync.MergeLaws
import Reiver.Lib.Joins
import Reiver.Pond.Query.SemiJoinRows
import Reiver.Pond.Query.SemiJoin
import Reiver.Pond.Query.LiteralsKept
import Reiver.Pond.Query.Literals
import Reiver.Lib.Quoted
import Reiver.Pond.Sync.JobsConcluded
import Reiver.Pond.Sync.JobMessages
import Reiver.Herd.CommittedRows
import Reiver.Herd.MessageWorker
import Reiver.Pond.Query.ResultsFresh
import Reiver.Pond.Query.ResultCache
import Reiver.Core.Billing.MeterService
import Reiver.Core.Billing.MeterDelivery
import Reiver.Website.UsageMetered
import Reiver.Website.UsageReport
import Reiver.Pond.Sync.Batches
import Reiver.Pond.Sync.MergeSpec
import Reiver.Pond.Sync.UpsertHistory
import Reiver.Pond.Sync.WarmJobs
import Reiver.Pond.Sync.RepeatedJobs
import Reiver.Pond.Sync.PipelineSound
import Reiver.Lib.Upsert
import Reiver.Lib.Run
import Reiver.Pond.Indexes.CacheCoherence
import Reiver.Pond.Indexes.SkipIndex
import Reiver.Pond.Indexes.BlobCodec
import Reiver.Pond.Indexes.Questions
import Reiver.Pond.Indexes.RoundTrip
import Reiver.Lib.Witnessed
import Reiver.Pond.Query.Ast
import Reiver.Pond.Query.Rewriter
import Reiver.Pond.Query.Isolation
import Reiver.Lib.Fallible
import Reiver.Lib.Runs
import Reiver.Lib.Holders
import Reiver.Pond.Sync.JobQueue
import Reiver.Pond.Sync.JobFencing
import Reiver.Pond.Query.FullText
import Reiver.Pond.Query.PlanCache
import Reiver.Pond.Query.Limiter
import Reiver.Pond.Query.LimiterSteps
import Reiver.Pond.Sync.Compaction
import Reiver.Pond.Sync.SwapSystem
import Reiver.Pond.Sync.SwapRace
import Reiver.Pond.Sync.Tiers
import Reiver.Pond.Sync.UpgradeKept
import Reiver.Pond.Sync.DowngradeKept
import Reiver.Core.Billing.Credits
import Reiver.Core.Billing.CachedBalance
import Reiver.Core.Billing.Reconciliation
import Reiver.Core.Billing.Ledger
import Reiver.Core.RateLimit
import Reiver.Flow.Gateway.Types
import Reiver.Flow.Gateway.Execution
import Reiver.Flow.Gateway.Guardrails
import Reiver.Flow.Gateway.Cache
import Reiver.Flow.Gateway.Invalidation
import Reiver.Flow.Gateway.Chat
import Reiver.Flow.Gateway.Policy
import Reiver.Flow.Gateway.CircuitBreaker
import Reiver.Flow.Gateway.ProbeSlots
import Reiver.Flow.Gateway.Streaming
import Reiver.Flow.Gateway.StreamEvents
import Reiver.Flow.Gateway.Charging
import Reiver.Flow.Gateway.Resolve
import Reiver.Pond.Query.LimiterBounds
import Reiver.Pond.Query.LimiterCapacity
import Reiver.Pond.Query.JoinNormalize
import Reiver.Pond.Query.JoinsPreserved
import Reiver.Watch.Alerts
import Reiver.Pond.WalIndex.BlocksKept
import Reiver.Watch.Notifications
import Reiver.Pond.WalIndex.TwoPhaseRows
import Reiver.Core.Promql.SeriesDivided
import Reiver.Pond.Query.ColumnsKept
import Reiver.Watch.Fingerprint
import Reiver.Pond.Pgwire.DialectReach
import Reiver.Lib.LuaNumber
import Reiver.Core.Billing.DeductScript
import Reiver.Pond.WalIndex.EntryKeys
import Reiver.Pond.Sync.WritePath
import Reiver.Lib.Greatest
import Reiver.Pond.Sync.IncrementalScan
import Reiver.Pond.Sync.TrueMaximum
