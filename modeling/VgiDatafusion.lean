import VgiDatafusion.Filters.Meaning
import VgiDatafusion.Filters.Exact
import VgiDatafusion.Filters.Sound
import VgiDatafusion.Filters.Coordinates
import VgiDatafusion.Scan.Conform
import VgiDatafusion.Scan.Replay
import VgiDatafusion.Scan.Statistics
import VgiDatafusion.Cache.Capture
import VgiDatafusion.Cache.Atomic
import VgiDatafusion.Cache.Job
import VgiDatafusion.Cache.Validation
import VgiDatafusion.Cache.JobRows
import VgiDatafusion.Cache.Delivery
import VgiDatafusion.Cache.ExactlyOnce
import VgiDatafusion.Library.Framing
import VgiDatafusion.Scan.Settings
import VgiDatafusion.Scan.Keys
import VgiDatafusion.Scan.KeyCollisions
import VgiDatafusion.Cache.SettingsIsolation
import VgiDatafusion.Cache.Flights
import VgiDatafusion.Cache.SingleFlight
import VgiDatafusion.Cache.Exchange
import VgiDatafusion.Cache.ExchangeFlights
import VgiDatafusion.Cache.NoHold
import VgiDatafusion.Filters.DeltaProtocol
import VgiDatafusion.Session.Attach
import VgiDatafusion.Library.Worklist
import VgiDatafusion.Session.Registry
import VgiDatafusion.Session.Companions
import VgiDatafusion.Session.Trust
import VgiDatafusion.Session.Handles
import VgiDatafusion.Session.Publishing
import VgiDatafusion.Session.AllOrNothing
import VgiDatafusion.Session.Detach
import VgiDatafusion.Aggregate.Accumulator
import VgiDatafusion.Aggregate.Distributed
import VgiDatafusion.Scan.SplitMetadata
import VgiDatafusion.Library.TopN
import VgiDatafusion.Order.LogicalPlan
import VgiDatafusion.Order.TopNHints
import VgiDatafusion.Filters.Translation
import VgiDatafusion.Filters.Tight
import VgiDatafusion.Cache.Tiers
import VgiDatafusion.Cache.Revocation
import VgiDatafusion.Cache.UnorderedKey
import VgiDatafusion.Library.Runs
import VgiDatafusion.Cache.PlainExchange
import VgiDatafusion.Cache.LimitedExchange
import VgiDatafusion.Cache.BufferedCommit
import VgiDatafusion.Cache.ScalarCall
import VgiDatafusion.Cache.ScalarAnswers
import VgiDatafusion.Cache.ScalarAssembly
import VgiDatafusion.Cache.ScalarChecks
import VgiDatafusion.Cache.ScalarFunction
import VgiDatafusion.Aggregate.SlidingWindow
import VgiDatafusion.Library.ListScheduling
import VgiDatafusion.Scan.Packing
import VgiDatafusion.Scan.PackingWeights
import VgiDatafusion.Scan.RangePartitioning
import VgiDatafusion.Scan.RangeExecution
import VgiDatafusion.Filters.Json
import VgiDatafusion.Filters.Merge
import VgiDatafusion.Scan.CatalogStatistics
import VgiDatafusion.Library.SortedEntries
import VgiDatafusion.Scan.SettingsVisibility
import VgiDatafusion.Library.FirstBest
import VgiDatafusion.Scalar.Overloads
import VgiDatafusion.Scalar.Binding
import VgiDatafusion.Session.AttachOptions
import VgiDatafusion.Session.AttachText
import VgiDatafusion.Session.CompanionLocations
import VgiDatafusion.Session.BestEffort
import VgiDatafusion.Library.Tree
import VgiDatafusion.Sql.Syntax
import VgiDatafusion.Sql.MacroBinding
import VgiDatafusion.Sql.Substitution
import VgiDatafusion.Sql.Qualifier
import VgiDatafusion.Library.Visitor
import VgiDatafusion.Sql.Expansion
import VgiDatafusion.Sql.Rewrite
import VgiDatafusion.Sql.Termination
import VgiDatafusion.Sql.Alike
import VgiDatafusion.Sql.Joins
import VgiDatafusion.Library.Visits
import VgiDatafusion.Sql.Unfolding
import VgiDatafusion.Sql.Idempotence
import VgiDatafusion.Session.BlobLiteral
import VgiDatafusion.Library.DepthFirst
import VgiDatafusion.Catalog.Branches
import VgiDatafusion.Catalog.SourceCycles
import VgiDatafusion.Catalog.BranchFilters
import VgiDatafusion.Catalog.Aliases
import VgiDatafusion.Session.UrlHost
import VgiDatafusion.Session.LoopbackTrust
import VgiDatafusion.Library.VersionedCells
import VgiDatafusion.Filters.ConsistentCut
import VgiDatafusion.Library.PartialRuns
import VgiDatafusion.Aggregate.WindowWorker
import VgiDatafusion.Aggregate.WindowRpcs
import VgiDatafusion.Aggregate.WindowPace
import VgiDatafusion.Library.WeakRegistry
import VgiDatafusion.Session.LifecycleLock
import VgiDatafusion.Library.ExpiringCache
import VgiDatafusion.Cache.PlanCache
