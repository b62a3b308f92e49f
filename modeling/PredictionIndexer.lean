import PredictionIndexer.Analysis.Claims
import PredictionIndexer.Analysis.Masks
import PredictionIndexer.Analysis.OutcomeSpace
import PredictionIndexer.Archive.Seal
import PredictionIndexer.Continuity.Classifier
import PredictionIndexer.Continuity.Envelope
import PredictionIndexer.Continuity.Fact
import PredictionIndexer.Engine.BookBuild
import PredictionIndexer.Engine.Buffer
import PredictionIndexer.Engine.Domain
import PredictionIndexer.Engine.Normalize
import PredictionIndexer.Engine.Numeric
import PredictionIndexer.Engine.Reader
import PredictionIndexer.Engine.Risk
import PredictionIndexer.Engine.Tape
import PredictionIndexer.Engine.Walker
import PredictionIndexer.Engine.Wire
import PredictionIndexer.Fees.Domain
import PredictionIndexer.Fees.Engine
import PredictionIndexer.Fees.Schedules
import PredictionIndexer.Finalize.Attempt
import PredictionIndexer.Finalize.Date
import PredictionIndexer.Finalize.Merge
import PredictionIndexer.Finalize.Ordering
import PredictionIndexer.Finalize.Reader
import PredictionIndexer.Finalize.Stamp
import PredictionIndexer.Finalize.Windows
import PredictionIndexer.ForStd.ConcaveInt
import PredictionIndexer.ForStd.Double
import PredictionIndexer.ForStd.Durable
import PredictionIndexer.ForStd.ExactCover
import PredictionIndexer.ForStd.FlatJson
import PredictionIndexer.ForStd.Greedy
import PredictionIndexer.ForStd.GroupStream
import PredictionIndexer.ForStd.History
import PredictionIndexer.ForStd.Journal
import PredictionIndexer.ForStd.Json
import PredictionIndexer.ForStd.JsonText
import PredictionIndexer.ForStd.JsonWriter
import PredictionIndexer.ForStd.Ladder
import PredictionIndexer.ForStd.LadderCost
import PredictionIndexer.ForStd.Members
import PredictionIndexer.ForStd.Memo
import PredictionIndexer.ForStd.Order
import PredictionIndexer.ForStd.Overflow
import PredictionIndexer.ForStd.Pairs
import PredictionIndexer.ForStd.PriorityQueue
import PredictionIndexer.ForStd.PyInt
import PredictionIndexer.ForStd.Race
import PredictionIndexer.ForStd.Raising
import PredictionIndexer.ForStd.Result
import PredictionIndexer.ForStd.Runs
import PredictionIndexer.ForStd.Sharing
import PredictionIndexer.ForStd.SortByKey
import PredictionIndexer.ForStd.Tiling
import PredictionIndexer.ForStd.Utf8
import PredictionIndexer.ForStd.Utf8Slice
import PredictionIndexer.ForStd.WindowCarry
import PredictionIndexer.Ingest.Batch
import PredictionIndexer.Ingest.Partition
import PredictionIndexer.Ingest.Run
import PredictionIndexer.Ingest.Store
import PredictionIndexer.Jobs.Contract
import PredictionIndexer.Jobs.Store
import PredictionIndexer.Replay.BasketFills
import PredictionIndexer.Replay.EconomicFills
import PredictionIndexer.Replay.FillChecks
import PredictionIndexer.Replay.Game
import PredictionIndexer.Replay.GameState
import PredictionIndexer.Replay.ImplicationCover
import PredictionIndexer.Replay.Outcomes
import PredictionIndexer.Replay.TimeShift
import PredictionIndexer.Segments.Decode
import PredictionIndexer.Segments.Seal
import PredictionIndexer.Spec.BasketWalk
import PredictionIndexer.Spec.BookCanonical
import PredictionIndexer.Spec.BookIndex
import PredictionIndexer.Spec.BookMachine
import PredictionIndexer.Spec.BookRuns
import PredictionIndexer.Spec.BufferDelivery
import PredictionIndexer.Spec.BundleAllocation
import PredictionIndexer.Spec.CaptureCounters
import PredictionIndexer.Spec.ClaimRelations
import PredictionIndexer.Spec.CompleteSets
import PredictionIndexer.Spec.ConsumerBooks
import PredictionIndexer.Spec.ContinuityHold
import PredictionIndexer.Spec.CursorFallback
import PredictionIndexer.Spec.CursorSchema
import PredictionIndexer.Spec.DecimalParsing
import PredictionIndexer.Spec.EnvelopeReadable
import PredictionIndexer.Spec.EnvelopeSchema
import PredictionIndexer.Spec.FactRange
import PredictionIndexer.Spec.FactRoundTrip
import PredictionIndexer.Spec.FeeDeltas
import PredictionIndexer.Spec.FeeOrders
import PredictionIndexer.Spec.FeeRuns
import PredictionIndexer.Spec.FillRuns
import PredictionIndexer.Spec.GameTimeline
import PredictionIndexer.Spec.GroupDecisions
import PredictionIndexer.Spec.IdentityFirst
import PredictionIndexer.Spec.ImplicationCover
import PredictionIndexer.Spec.IngestRecovery
import PredictionIndexer.Spec.IngestResume
import PredictionIndexer.Spec.IngestSteps
import PredictionIndexer.Spec.JobMoves
import PredictionIndexer.Spec.JobRuns
import PredictionIndexer.Spec.KillPrices
import PredictionIndexer.Spec.LadderWalk
import PredictionIndexer.Spec.LaneLossless
import PredictionIndexer.Spec.LaneReading
import PredictionIndexer.Spec.LaneRuns
import PredictionIndexer.Spec.LaneWindows
import PredictionIndexer.Spec.MarketCap
import PredictionIndexer.Spec.MergeOrder
import PredictionIndexer.Spec.ReceiptChain
import PredictionIndexer.Spec.RecoveredSeal
import PredictionIndexer.Spec.Rescaling
import PredictionIndexer.Spec.ReservedKeys
import PredictionIndexer.Spec.ReservedScan
import PredictionIndexer.Spec.RiskCommit
import PredictionIndexer.Spec.RiskInvariant
import PredictionIndexer.Spec.RiskLatch
import PredictionIndexer.Spec.RiskReplay
import PredictionIndexer.Spec.ScheduleResolution
import PredictionIndexer.Spec.ScopeLossless
import PredictionIndexer.Spec.SealAgreement
import PredictionIndexer.Spec.SealNamesData
import PredictionIndexer.Spec.SealReaders
import PredictionIndexer.Spec.SealValid
import PredictionIndexer.Spec.SegmentCalls
import PredictionIndexer.Spec.SegmentClaims
import PredictionIndexer.Spec.SegmentRecords
import PredictionIndexer.Spec.SegmentSeals
import PredictionIndexer.Spec.SeriesSpace
import PredictionIndexer.Spec.ShiftedHistory
import PredictionIndexer.Spec.StampRoundTrip
import PredictionIndexer.Spec.StorePositions
import PredictionIndexer.Spec.StreamProtocol
import PredictionIndexer.Spec.SuccessorOverflow
import PredictionIndexer.Spec.TieGroups
import PredictionIndexer.Spec.WalkPartition
import PredictionIndexer.Spec.WalkPlan
import PredictionIndexer.Spec.WindowChecks
import PredictionIndexer.Spec.WindowReadiness
import PredictionIndexer.Spec.WindowTiling
import PredictionIndexer.Spec.WindowVerdicts
import PredictionIndexer.Splices.Base
import PredictionIndexer.Splices.Envelope
import PredictionIndexer.Splices.Kalshi
import PredictionIndexer.Splices.Moment
import PredictionIndexer.Splices.Names
import PredictionIndexer.Splices.Recovery
import PredictionIndexer.Splices.Segment
import PredictionIndexer.Splices.Writer
import PredictionIndexer.Streams.Attempt
import PredictionIndexer.Streams.Book
import PredictionIndexer.Streams.Consumer
import PredictionIndexer.Streams.Decoder
import PredictionIndexer.Targeter.Continuity
import PredictionIndexer.Targeter.Relationships
import PredictionIndexer.Targeter.Selection
