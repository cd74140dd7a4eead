import LimitOrderBook.Fallible
import LimitOrderBook.ShortTransfers
import LimitOrderBook.OrderedMap
import LimitOrderBook.RenamedMaps
import LimitOrderBook.PriorityQueue
import LimitOrderBook.Messages
import LimitOrderBook.BigEndian
import LimitOrderBook.ByteFields
import LimitOrderBook.MessageFrames
import LimitOrderBook.EventFrames
import LimitOrderBook.Journal
import LimitOrderBook.JournalRecovery
import LimitOrderBook.JournalDamage
import LimitOrderBook.StreamFraming
import LimitOrderBook.LfQueue
import LimitOrderBook.FixedSlotPool
import LimitOrderBook.FixedSlotPoolCalls
import LimitOrderBook.FixedSlotPoolAlignment
import LimitOrderBook.OrderBook
import LimitOrderBook.OrderBookLevels
import LimitOrderBook.OrderBookInvariant
import LimitOrderBook.OrderBookShelf
import LimitOrderBook.OrderBookOperations
import LimitOrderBook.OrderBookViews
import LimitOrderBook.OrderBookChecker
import LimitOrderBook.OrderBookCalls
import LimitOrderBook.OrderBookConsistency
import LimitOrderBook.OrderBookReference
import LimitOrderBook.OrderBookRegistry
import LimitOrderBook.OrderBookRefinement
import LimitOrderBook.HeapOrderBook
import LimitOrderBook.HeapOrderBookMatches
import LimitOrderBook.FeedBooks
import LimitOrderBook.FeedChanges
import LimitOrderBook.FeedSoundness
import LimitOrderBook.FeedStreams
import LimitOrderBook.FeedIsolation
import LimitOrderBook.FeedRestriction
import LimitOrderBook.ItchReplay
import LimitOrderBook.FeedBytes
import LimitOrderBook.PitchDecoder
import LimitOrderBook.PitchSafety
import LimitOrderBook.PitchSequencing
import LimitOrderBook.FeedInput
import LimitOrderBook.ItchDecoder
import LimitOrderBook.ItchSample
import LimitOrderBook.ItchSession
import LimitOrderBook.Market
import LimitOrderBook.Engine
import LimitOrderBook.EngineLedger
import LimitOrderBook.EngineTrades
import LimitOrderBook.EngineTranscript
import LimitOrderBook.EngineTurns
import LimitOrderBook.EngineEntry
import LimitOrderBook.EngineRules
import LimitOrderBook.EngineSweep
import LimitOrderBook.EngineProcess
import LimitOrderBook.EngineNotional
import LimitOrderBook.EngineOutcome
import LimitOrderBook.StepSystem
import LimitOrderBook.EngineGuarantees
import LimitOrderBook.EngineInvariant
import LimitOrderBook.EngineChecker
import LimitOrderBook.EngineLimits
import LimitOrderBook.EnginePositions
import LimitOrderBook.EngineAtomicity
import LimitOrderBook.EngineRetry
import LimitOrderBook.EnginePriority
import LimitOrderBook.EngineFeed
import LimitOrderBook.EngineFlood
import LimitOrderBook.Replica
import LimitOrderBook.ReplicaFeed
import LimitOrderBook.ReplicaSnapshot
import LimitOrderBook.ReplicaMirror
import LimitOrderBook.ReplicaRestore
import LimitOrderBook.ReplicaStream
import LimitOrderBook.TwoRuns
import LimitOrderBook.EngineAgreement
import LimitOrderBook.Exchange
import LimitOrderBook.EngineProtocol
import LimitOrderBook.EngineRenaming
import LimitOrderBook.EngineReplies
import LimitOrderBook.EngineMakers
import LimitOrderBook.EngineReasons
import LimitOrderBook.Server
import LimitOrderBook.ServerSteps
import LimitOrderBook.ServerArrivals
import LimitOrderBook.ServerSessions
import LimitOrderBook.ServerFlow
import LimitOrderBook.ServerReplies
import LimitOrderBook.ServerShutdown
import LimitOrderBook.OrderManager
import LimitOrderBook.EngineBlotter
import LimitOrderBook.EngineReports
import LimitOrderBook.OrderManagerMirror
import LimitOrderBook.OrderManagerRefusal
import LimitOrderBook.OrderManagerRisk
import LimitOrderBook.OrderManagerAgreement
import LimitOrderBook.EngineCompletion
import LimitOrderBook.PitchForms
import LimitOrderBook.EventCsvRoundTrip
import LimitOrderBook.PositionAccounting
import LimitOrderBook.MakerQuotes
import LimitOrderBook.Frequencies
import LimitOrderBook.LatencyHistogram
import LimitOrderBook.EnginePairs
import LimitOrderBook.Features
import LimitOrderBook.FeatureSignals
import LimitOrderBook.EnginePrefixes
import LimitOrderBook.FeatureMicroprice
import LimitOrderBook.TradingClient
import LimitOrderBook.TradingClientMarket
import LimitOrderBook.TradingClientRecovery
import LimitOrderBook.TradingClientSignals
import LimitOrderBook.EngineRequests
import LimitOrderBook.TradingSession
import LimitOrderBook.TradingSessionReplies
import LimitOrderBook.EngineExposure
import LimitOrderBook.OrderManagerDrains
import LimitOrderBook.TradingSessionLimits
import LimitOrderBook.TradingSessionPhases
import LimitOrderBook.TradingApp
import LimitOrderBook.TraderSessions
import LimitOrderBook.MakerOrders
import LimitOrderBook.TakerInventory
import LimitOrderBook.WriteAheadLog
import LimitOrderBook.ExchangeCrashes
import LimitOrderBook.ReferenceMarket
import LimitOrderBook.EventReplay
import LimitOrderBook.EventGenerator
import LimitOrderBook.UdpDemo
import LimitOrderBook.Dialogue
import LimitOrderBook.TcpDemo
import LimitOrderBook.TcpDemoAgreement
