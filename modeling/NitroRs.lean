import NitroRs.Lib.BigEndian
import NitroRs.Lib.Lexicographic
import NitroRs.Lib.Store
import NitroRs.Lib.Lru
import NitroRs.Lib.Outcome
import NitroRs.Lib.Ascending
import NitroRs.Lib.Codec
import NitroRs.Lib.Runs
import NitroRs.Lib.Search
import NitroRs.Lib.Budget
import NitroRs.Lib.Cover
import NitroRs.Lib.Hex
import NitroRs.Lib.Checked
import NitroRs.Lib.HashChain
import NitroRs.Lib.Simulation
import NitroRs.Lib.Ensures
import NitroRs.Lib.ExecutedLog
import NitroRs.Lib.Rlp
import NitroRs.Lib.Abi
import NitroRs.Externals
import NitroRs.Primitives.L1
import NitroRs.Primitives.LegacyFormat
import NitroRs.Primitives.Message
import NitroRs.Primitives.Database
import NitroRs.Primitives.Records
import NitroRs.Primitives.Canonical
import NitroRs.Codecs
import NitroRs.Inbox.SequencerMessage
import NitroRs.Inbox.Multiplexer
import NitroRs.Inbox.Feed
import NitroRs.Inbox.Reference
import NitroRs.Inbox.Tracker
import NitroRs.Inbox.TrackerSpec
import NitroRs.Inbox.BatchTables
import NitroRs.Inbox.Ledger
import NitroRs.Inbox.LedgerSteps
import NitroRs.Inbox.StorageInvariant
import NitroRs.Inbox.EndOfStream
import NitroRs.Inbox.Resume
import NitroRs.Inbox.Answers
import NitroRs.Inbox.MessageCount
import NitroRs.Inbox.Panics
import NitroRs.Inbox.Ingest
import NitroRs.Inbox.Ingested
import NitroRs.Inbox.Recovery
import NitroRs.Inbox.Landing
import NitroRs.Inbox.Crash
import NitroRs.Inbox.Emission
import NitroRs.Inbox.Windows
import NitroRs.Inbox.CombinedRuns
import NitroRs.Inbox.PlainBatches
import NitroRs.Inbox.Rollback
import NitroRs.Inbox.MetadataCache
import NitroRs.Inbox.Lookup
import NitroRs.Inbox.Rejections
import NitroRs.Inbox.DelayedInbox
import NitroRs.Inbox.Rereads
import NitroRs.Inbox.DelayedReorg
import NitroRs.Inbox.SnapSync
import NitroRs.Inbox.DelayedBinding
import NitroRs.Inbox.WireSegments
import NitroRs.Streamer.Streamer
import NitroRs.Streamer.StreamerSpec
import NitroRs.Streamer.Density
import NitroRs.Streamer.DelayedReads
import NitroRs.Streamer.Retry
import NitroRs.Streamer.Execution
import NitroRs.Streamer.Chain
import NitroRs.Streamer.InFlight
import NitroRs.Streamer.Timestamps
import NitroRs.Streamer.ConfirmedAppend
import NitroRs.Poster.BatchPoster
import NitroRs.Poster.RoundTrip
import NitroRs.Poster.SegmentSource
import NitroRs.Poster.Payloads
import NitroRs.Poster.Starvation
import NitroRs.Poster.HandedOut
import NitroRs.Reader.InboxReader
import NitroRs.Reader.CaughtUp
import NitroRs.Reader.FailedCalls
import NitroRs.Reader.Iteration
import NitroRs.Reader.SequencerReorg
import NitroRs.Reader.L1History
import NitroRs.Reader.ScanSteps
import NitroRs.Reader.ScanPosition
import NitroRs.Reader.ScanRuns
import NitroRs.Reader.FinalHistory
import NitroRs.Reader.BatchFailures
import NitroRs.Reader.SuccessfulCalls
import NitroRs.Reader.ScanProgress
import NitroRs.Reader.Calldata
import NitroRs.Reader.AfterInboxAcc
import NitroRs.Reader.Finality
import NitroRs.Bridge.Rpc
import NitroRs.Bridge.EthDelayed
import NitroRs.Bridge.EthSequencer
import NitroRs.Bridge.DecodingPanics
import NitroRs.Bridge.DelayedLookup
import NitroRs.Node.Genesis
import NitroRs.Node.ArbosStorage
import NitroRs.Node.InitScan
import NitroRs.Db.DbKeys
import NitroRs.Db.Sled
import NitroRs.Db.PrefixDeletion
import NitroRs.Db.Encoding
import NitroRs.Db.Representation
import NitroRs.Lib.Longest
import NitroRs.Streamer.DuplicateCount
import NitroRs.Streamer.ByteRefinement
import NitroRs.Streamer.ByteAppend
import NitroRs.Streamer.ByteExecution
import NitroRs.Streamer.MessageLog
import NitroRs.Streamer.EventualExecution
import NitroRs.Streamer.Forkchoice
import NitroRs.Inbox.SledTracker
import NitroRs.Inbox.ByteTracker
import NitroRs.Inbox.ByteIngest
import NitroRs.Inbox.ReadableDelayed
import NitroRs.Node.StorageRuns
import NitroRs.Node.StoredBytes
import NitroRs.Node.NitroRpc
import NitroRs.Lib.StableSort
import NitroRs.Reader.ContiguityFilter
