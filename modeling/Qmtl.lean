import Qmtl.DagManager.BufferScheduler
import Qmtl.DagManager.ContextIsolation
import Qmtl.DagManager.GarbageCollector
import Qmtl.DagManager.Idempotence
import Qmtl.DagManager.KafkaAdmin
import Qmtl.DagManager.NamespaceIsolation
import Qmtl.DagManager.StandIn
import Qmtl.Foundation.CircuitBreaker
import Qmtl.Foundation.NodeIdentity
import Qmtl.Foundation.NodeSpecPaths
import Qmtl.Foundation.SchemaRegistry
import Qmtl.Foundation.WellIdentified
import Qmtl.Gateway.ActivationSequence
import Qmtl.Gateway.CommitLogDelivery
import Qmtl.Gateway.CommitLogIsolation
import Qmtl.Gateway.CompletedDiff
import Qmtl.Gateway.ControlBusDelivery
import Qmtl.Gateway.CrcHandshake
import Qmtl.Gateway.DegradedQueue
import Qmtl.Gateway.DiffStream
import Qmtl.Gateway.FsmStores
import Qmtl.Gateway.InstrumentNames
import Qmtl.Gateway.OwnershipExclusion
import Qmtl.Gateway.QueueMapKeys
import Qmtl.Gateway.QueueMapSource
import Qmtl.Gateway.RebalancingSplit
import Qmtl.Gateway.RebalancingStrategies
import Qmtl.Gateway.ReduceOnly
import Qmtl.Gateway.Retry
import Qmtl.Gateway.SubmitAtomicity
import Qmtl.Runtime.ActivationFeeds
import Qmtl.Runtime.Brokerage.CashConservation
import Qmtl.Runtime.Brokerage.Fees
import Qmtl.Runtime.Brokerage.TrailingStops
import Qmtl.Runtime.Cache.BackfillProgress
import Qmtl.Runtime.Cache.BoundedLog
import Qmtl.Runtime.Conformance
import Qmtl.Runtime.FeatureStore
import Qmtl.Runtime.History.AutoBackfill
import Qmtl.Runtime.History.HistoryReplay
import Qmtl.Runtime.Labeling.BarrierModes
import Qmtl.Runtime.MicroBatch
import Qmtl.Runtime.OrderDedup
import Qmtl.Runtime.OrderGate
import Qmtl.Runtime.PositionAccounting
import Qmtl.Runtime.QueueUpdates
import Qmtl.Runtime.RateLimit
import Qmtl.Runtime.Seamless.BackgroundBackfill
import Qmtl.Runtime.Seamless.CachedResponses
import Qmtl.Runtime.Seamless.LiveAsOf
import Qmtl.Runtime.Seamless.RangeSubtraction
import Qmtl.Runtime.Seamless.SeamlessFetch
import Qmtl.Runtime.Seamless.SyncGap
import Qmtl.Runtime.StrategyIsolation
import Qmtl.Runtime.Temporal.ReadyAlignment
import Qmtl.WorldService.ActivationUpdates
import Qmtl.WorldService.ActivationVersions
import Qmtl.WorldService.AllocationRuns
import Qmtl.WorldService.ApplyRollback
import Qmtl.WorldService.DeletedWorlds
import Qmtl.WorldService.DroppedEvents
import Qmtl.WorldService.ExtendedResults
import Qmtl.WorldService.LiveEvidence
import Qmtl.WorldService.LivePromotions
import Qmtl.WorldService.NewestSnapshot
import Qmtl.WorldService.Policy.Explanations
import Qmtl.WorldService.Policy.RulesetIdentity
import Qmtl.WorldService.Policy.SampleThresholds
import Qmtl.WorldService.RevisionNumbers
import Qmtl.WorldService.ScaleOnly
import Qmtl.WorldService.SnapshotHash
import Qmtl.WorldService.ValidationCache
