import SentrixIndexer.Relational.StableSort
import SentrixIndexer.Effect.Tasks
import SentrixIndexer.Chain
import SentrixIndexer.Convert
import SentrixIndexer.Db
import SentrixIndexer.TokenDecode
import SentrixIndexer.BlockWriter
import SentrixIndexer.Sync.SingleFlight
import SentrixIndexer.Sync.World
import SentrixIndexer.Sync.Backfill
import SentrixIndexer.Sync.Reorg
import SentrixIndexer.Sync.Tail
import SentrixIndexer.Proofs.Statements
import SentrixIndexer.Proofs.Writes
import SentrixIndexer.Sync.Indexer
import SentrixIndexer.Proofs.Writers
import SentrixIndexer.Proofs.Pipeline
import SentrixIndexer.Proofs.Bundles
import SentrixIndexer.Proofs.Refinement
import SentrixIndexer.Effect.Exec
import SentrixIndexer.Sync.Nodes
import SentrixIndexer.Proofs.CursorSafety
import SentrixIndexer.Sync.Fleet
import SentrixIndexer.Proofs.LaggingNodes
import SentrixIndexer.Proofs.MixedForks
import SentrixIndexer.Proofs.Rewind
import SentrixIndexer.Proofs.Registry
import SentrixIndexer.Proofs.Replay
import SentrixIndexer.Proofs.Reingest
import SentrixIndexer.Proofs.GateLeak
import SentrixIndexer.Proofs.PlainLoop
import SentrixIndexer.Proofs.BackfillRefinement
import SentrixIndexer.Proofs.Idempotence
import SentrixIndexer.Sync.GateThreads
import SentrixIndexer.Proofs.GateSafety
import SentrixIndexer.Analytics.Flusher
import SentrixIndexer.Proofs.FlushLoss
import SentrixIndexer.Effect.Labelled
import SentrixIndexer.Sync.Seeding
import SentrixIndexer.Proofs.SeedingRace
import SentrixIndexer.Relational.HashChain
import SentrixIndexer.Sync.Forks
import SentrixIndexer.Proofs.ProbeSoundness
import SentrixIndexer.Sync.Walks
import SentrixIndexer.Proofs.WalkGuard
import SentrixIndexer.Proofs.SingleWriter
import SentrixIndexer.Coinblast.Db
import SentrixIndexer.Coinblast.World
import SentrixIndexer.Coinblast.Handlers
import SentrixIndexer.Coinblast.Worker
import SentrixIndexer.Proofs.CurveStatements
import SentrixIndexer.Proofs.TradeAggregates
import SentrixIndexer.Proofs.WorkerRules
import SentrixIndexer.Coinblast.Nodes
import SentrixIndexer.Proofs.CurveSet
import SentrixIndexer.Sync.ContractDetect
import SentrixIndexer.Proofs.WorkerExit
import SentrixIndexer.Effect.Succeeds
import SentrixIndexer.Proofs.ChunkContent
import SentrixIndexer.Coinblast.Reference
import SentrixIndexer.Proofs.HexText
import SentrixIndexer.Proofs.TransferCodec
import SentrixIndexer.Proofs.AskedFor
import SentrixIndexer.Api.Lookups
import SentrixIndexer.Proofs.HexSpelling
import SentrixIndexer.Proofs.FailingHeight
import SentrixIndexer.Proofs.SparseWalk
import SentrixIndexer.Analytics.Ledger
import SentrixIndexer.Proofs.ShutdownDrain
import SentrixIndexer.Proofs.AnalyticsOnce
import SentrixIndexer.Proofs.CatchUp
import SentrixIndexer.Effect.Observed
import SentrixIndexer.Proofs.LatestPrice
import SentrixIndexer.Proofs.FailureFree
import SentrixIndexer.Proofs.TransientFailures
import SentrixIndexer.Effect.Partway
import SentrixIndexer.Proofs.LateDeal
import SentrixIndexer.BlockStatements
import SentrixIndexer.Proofs.BindLimit
import SentrixIndexer.Proofs.NumericFidelity
import SentrixIndexer.Proofs.ForeignKeys
import SentrixIndexer.Backoff
import SentrixIndexer.Proofs.RetryContract
import SentrixIndexer.Numeric.Decimal
import SentrixIndexer.WeiCodec
import SentrixIndexer.Proofs.WeiExact
import SentrixIndexer.Cache.Breaker
import SentrixIndexer.Cache.Client
import SentrixIndexer.Proofs.BreakerTrace
import SentrixIndexer.Api.Blocks
import SentrixIndexer.Proofs.Pagination
import SentrixIndexer.Proofs.ChunkTiling
import SentrixIndexer.Proofs.Classification
import SentrixIndexer.Api.Cached
import SentrixIndexer.Api.World
import SentrixIndexer.Proofs.CachedRoutes
import SentrixIndexer.Api.Lists
import SentrixIndexer.Api.Etherscan
import SentrixIndexer.Proofs.RowOrder
import SentrixIndexer.Api.RequestId
import SentrixIndexer.Proofs.RequestIds
import SentrixIndexer.Proofs.Txlist
import SentrixIndexer.Api.Detail
import SentrixIndexer.Proofs.OneChain
import SentrixIndexer.Proofs.DetailReads
import SentrixIndexer.Proofs.LivePages
import SentrixIndexer.Stats
import SentrixIndexer.Proofs.DailyStats
import SentrixIndexer.Proofs.SealedHeights
import SentrixIndexer.Proofs.BackfillFlow
import SentrixIndexer.Proofs.DetectorProgress
import SentrixIndexer.Effect.Lockstep
import SentrixIndexer.Api.Routes
import SentrixIndexer.Api.Http
import SentrixIndexer.Proofs.ErrorTexts
import SentrixIndexer.Proofs.TokenGate
import SentrixIndexer.Effect.History
