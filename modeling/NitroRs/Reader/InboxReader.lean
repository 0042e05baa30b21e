import NitroRs.Inbox.Tracker
import Mathlib.Data.List.Sort

/-! The inbox reader: it compares the tracker with L1 and reads what is missing,
a window of blocks at a time. A call to L1 fails or answers as it likes. -/
namespace NitroRs
open Outcome

structure DelayedInboxMessage where
  seqNum : Nat
  beforeInboxAcc : B256
  message : L1IncomingMessage

/-- The reader asks for accumulators by block number only, with a zero block hash. -/
structure DelayedBridge where
  getMessageCount : Nat → Except Error Nat
  getAccumulator : Nat → Nat → Except Error B256
  lookupMessagesInRange : Nat → Nat → Except Error (List DelayedInboxMessage)

structure SequencerInbox where
  getBatchCount : Nat → Except Error Nat
  getAccumulator : Nat → Nat → Except Error B256
  lookupBatchesInRange : Nat → Nat → Except Error (List SequencerInboxBatch)
  getSequencerMessageBytesInBlock : Nat → Nat → B256 → B256 → Except Error (Bytes × B256)
  getTxInput : B256 → Except Error Bytes

/-- The calls of one iteration. A backfill looks delayed messages up a second time, and
that call may fail when the first one did not. -/
structure L1Calls where
  delayedBridge : DelayedBridge
  backfill : Nat → Nat → Except Error (List DelayedInboxMessage)
  sequencerInbox : SequencerInbox

inductive ReaderError where
  /-- an error of the tracker or of a call to L1 -/
  | inbox (cause : Error)
  /-- "BatchDataBlobHashes not yet supported" -/
  | blobHashes
  /-- "invalid data_location {location}" -/
  | invalidDataLocation (location : UInt8)
  /-- "can't get older messages" -/
  | noOlderMessages
  /-- a panic: an offset or a length near the end of the `usize` range -/
  | overflow
  deriving DecidableEq

structure InboxReaderConfig where
  delayBlocks : Nat
  minBlocksToRead : Nat
  defaultBlocksToRead : Nat
  targetMessagesRead : Nat
  maxBlocksToRead : Nat

/-- What the reader keeps between iterations. -/
structure InboxReader where
  tracker : InboxTracker
  firstMessageBlock : Nat
  caughtUp : Bool
  lastSeenBatchCount : Nat
  lastReadBatchCount : Nat

/-- The local variables of the loop that an iteration hands to the next one. -/
structure Scan where
  fromBlock : Nat
  blocksToFetch : Nat

structure DelayedCheck where
  reorging : Bool
  missing : Bool
  deriving DecidableEq

structure SequencerCheck where
  reorging : Bool
  missing : Bool
  checkingCount : Nat
  seenCount : Nat
  deriving DecidableEq

/-- `saturating_add` and `saturating_mul` of a `u64`. -/
def saturate (n : Nat) : Nat := min n (2 ^ 64 - 1)

namespace InboxReader

def new (tracker : InboxTracker) (firstMessageBlock : Nat) : InboxReader :=
  ⟨tracker, firstMessageBlock, false, 0, 0⟩

def onTracker (x : EStateM Error InboxTracker α) : EStateM ReaderError InboxTracker α := fun t =>
  match x t with
  | .ok a t => .ok a t
  | .error e t => .error (.inbox e) t

/-- A failed call to L1 that ends the loop. -/
def liftCall (r : Except Error α) : EStateM ReaderError InboxTracker α := onTracker (lift r)

/-- Drop the delayed messages that L1 does not count. -/
def reorgToL1 (ourLatest l1Count : Nat) : EStateM Error InboxTracker Unit :=
  if l1Count < ourLatest then InboxTracker.reorgDelayedTo l1Count else return ()

section
variable [Externals]

/-- A failed count reads as 0 and a failed accumulator as zeros. -/
def checkDelayed (bridge : DelayedBridge) (height : Nat) : EStateM Error InboxTracker DelayedCheck := do
  let l1Count := (bridge.getMessageCount height).toOption.getD 0
  let t ← read
  let ourLatest ← lift (InboxTracker.getDelayedCount t.db)
  reorgToL1 ourLatest l1Count
  let checking := min ourLatest l1Count
  if 0 < checking then
    let l1Acc := (bridge.getAccumulator (checking - 1) height).toOption.getD .zero
    let t ← read
    let dbAcc ← lift (InboxTracker.getDelayedAcc t.db (checking - 1))
    return ⟨dbAcc ≠ l1Acc, ourLatest < l1Count⟩
  else return ⟨false, ourLatest < l1Count⟩

end

/-- Without a count from L1 the tracker's own count stands in, and batches count as missing. -/
def checkSequencer (inbox : SequencerInbox) (height : Nat) : EStateM Error InboxTracker SequencerCheck :=
  match inbox.getBatchCount height with
  | .ok seen => do
    let ourLatest ← InboxTracker.getBatchCount
    let checking := min ourLatest seen
    if 0 < checking then
      let l1Acc := (inbox.getAccumulator (checking - 1) height).toOption.getD .zero
      let dbAcc ← InboxTracker.getBatchAcc (checking - 1)
      return ⟨dbAcc ≠ l1Acc, ourLatest < seen, checking, seen⟩
    else return ⟨false, ourLatest < seen, checking, seen⟩
  | .error _ => do
    let seen ← InboxTracker.getBatchCount
    return ⟨false, true, seen, seen⟩

/-- The checking phase of an iteration. -/
def check [Externals] (l1 : L1Calls) (height : Nat) :
    EStateM Error InboxTracker (DelayedCheck × SequencerCheck) := do
  let delayed ← checkDelayed l1.delayedBridge height
  let sequencer ← checkSequencer l1.sequencerInbox height
  return (delayed, sequencer)

def nothingMissing (delayed : DelayedCheck) (sequencer : SequencerCheck) : Bool :=
  !delayed.missing && !delayed.reorging && !sequencer.missing && !sequencer.reorging

/-- The messages as the tracker takes them. -/
def delayedTuples : List DelayedInboxMessage → Except Error (List DelayedInput)
  | [] => .ok []
  | m :: later => do
    let bytes ← serializeIncomingL1MessageLegacy m.message
    let tuples ← delayedTuples later
    return (m.seqNum, m.beforeInboxAcc, bytes) :: tuples

section
variable [Externals]

/-- Returns the number of messages added. A failed lookup or addition is only logged. -/
def fetchDelayed (lookup : Nat → Nat → Except Error (List DelayedInboxMessage)) (fromBlock toBlock : Nat) :
    EStateM ReaderError InboxTracker Nat :=
  match lookup fromBlock toBlock with
  | .error _ => return 0
  | .ok [] => return 0
  | .ok delayed => do
    let tuples ← liftCall (delayedTuples delayed)
    match ← onTracker (attempt (InboxTracker.addDelayedMessages tuples none)) with
    | .ok _ => return delayed.length
    | .error _ => return 0

end

def u256At (params : Bytes) (off : Nat) : Nat := BigEndian.value ((params.drop off).take 32)

/-- The dynamic bytes at an offset, if they fit. Sums that overflow a `usize` panic, or
give a slice that does. -/
def bytesAt (params : Bytes) (off : Nat) : Except ReaderError (Option Bytes) :=
  if 2 ^ 64 ≤ off then .ok none
  else if 2 ^ 64 ≤ off + 32 then .error .overflow
  else if params.length < off + 32 then .ok none
  else
    let len := u256At params off
    if 2 ^ 64 ≤ len then .ok none
    else if 2 ^ 64 ≤ off + 32 + len then .error .overflow
    else if params.length < off + 32 + len then .ok none
    else .ok (some ((params.drop (off + 32)).take len))

/-- The first of the given words that points at dynamic bytes. -/
def locateBytes (params : Bytes) : List Nat → Except ReaderError Bytes
  | [] => .error (.inbox .noDynamicBytes)
  | i :: later =>
    match bytesAt params (u256At params (i * 32)) with
    | .error e => .error e
    | .ok (some bytes) => .ok bytes
    | .ok none => locateBytes params later

/-- The batch data in the input of an `addSequencerL2BatchFromOrigin` call. -/
def extractBatchData (txInput : Bytes) : Except ReaderError Bytes :=
  if txInput.length < 4 + 32 then .error (.inbox .txInputTooShort)
  else
    let params := txInput.drop 4
    locateBytes params (List.range (params.length / 32))

def batchData (inbox : SequencerInbox) (b : SequencerInboxBatch) : Except ReaderError (Bytes × B256) :=
  match b.dataLocation with
  | 0 =>
    match inbox.getTxInput b.txHash with
    | .error e => .error (.inbox e)
    | .ok txInput => (extractBatchData txInput).map (·, b.blockHash)
  | 1 => (inbox.getSequencerMessageBytesInBlock b.parentChainBlockNumber b.sequenceNumber b.txHash
      b.blockHash).mapError .inbox
  | 2 => .ok ([], b.blockHash)
  | 3 => .error .blobHashes
  | location => .error (.invalidDataLocation location)

/-- Every failure here leaves the reader's loop through a `?`. -/
def fetchData (inbox : SequencerInbox) : List SequencerInboxBatch → Except ReaderError (List SequencerInboxBatch)
  | [] => .ok []
  | b :: later => do
    let (data, blockHash) ← batchData inbox b
    let good ← fetchData inbox later
    return { b with
      serialized := batchHeader b.timeBounds b.afterDelayedCount ++ data
      blockHash := if b.blockHash = .zero then blockHash else b.blockHash } :: good

section
variable [Externals]

/-- Fetch the delayed messages that the batches read and the tracker does not have. -/
def backfillDelayed (lookup : Nat → Nat → Except Error (List DelayedInboxMessage))
    (firstMessageBlock fromBlock toBlock : Nat) (good : List SequencerInboxBatch) :
    EStateM ReaderError InboxTracker Unit := do
  let needed := (good.map (·.afterDelayedCount)).max?.getD 0
  let t ← read
  let available ← liftCall (InboxTracker.getDelayedCount t.db)
  if available < needed then
    let startBlock :=
      if 0 < available then
        match InboxTracker.getDelayedMessageAccumulatorAndParentChainBlockNumber t.db (available - 1) with
        | .ok (_, _, parentBlock) => max parentBlock firstMessageBlock
        | .error _ => fromBlock
      else fromBlock
    let maxParentBlock := (good.map (·.parentChainBlockNumber)).max?.getD toBlock
    let _ ← fetchDelayed lookup startBlock maxParentBlock

end

/-- Down to a batch that has metadata, or to batch 0. -/
def probeMetadata : Nat → EStateM Error InboxTracker Nat
  | 0 => return 0
  | probe + 1 => do
    match ← attempt (InboxTracker.getBatchMetadata (probe + 1)) with
    | .ok _ => return probe + 1
    | .error _ => probeMetadata probe

/-- The batch that the tracker needs next. -/
def expectedBatch : EStateM Error InboxTracker Nat := do
  let count ← attempt InboxTracker.getBatchCount
  match count.toOption.getD 0 with
  | 0 => return 0
  | ourLatest + 1 =>
    let probe ← probeMetadata ourLatest
    return probe + 1

/-- `sort_by_key` is stable, and so is insertion. -/
def sortBatches (batches : List SequencerInboxBatch) : List SequencerInboxBatch :=
  batches.insertionSort (fun a b => a.sequenceNumber ≤ b.sequenceNumber)

/-- The loop of the filter, as it counts in 64 bits: batches without a gap from the expected one on. -/
def filterFrom : Nat → List SequencerInboxBatch → List SequencerInboxBatch
  | _, [] => []
  | expected, b :: later =>
    if b.sequenceNumber = expected then b :: filterFrom (saturate (expected + 1)) later
    else if expected < b.sequenceNumber then []
    else filterFrom expected later

def getPrevBlockForReorg (firstMessageBlock fromBlock maxBlocksBackwards : Nat) : Except ReaderError Nat :=
  if fromBlock ≤ firstMessageBlock then .error .noOlderMessages
  else .ok (max (fromBlock - maxBlocksBackwards) firstMessageBlock)

/-- Where the scan goes when the window's batches start past the expected one. -/
def backtrack (cfg : InboxReaderConfig) (firstMessageBlock : Nat) (scan : Scan) : Scan where
  fromBlock := (getPrevBlockForReorg firstMessageBlock scan.fromBlock scan.blocksToFetch).toOption.getD
    firstMessageBlock
  blocksToFetch := cfg.minBlocksToRead

/-- What ingesting a window gives the rest of the iteration. -/
structure Fetched where
  scan : Scan
  batchesLen : Nat
  seenCount : Nat

section
variable [Externals]

/-- Filter and ingest the batches of a window, when there are any. -/
def ingestBatches (cfg : InboxReaderConfig) (firstMessageBlock : Nat) (scan : Scan) (seenCount : Nat)
    (good : List SequencerInboxBatch) : EStateM Error InboxTracker Fetched := do
  let expected ← expectedBatch
  match filterFrom expected (sortBatches good) with
  | [] =>
    let minSeen := (good.map (·.sequenceNumber)).min?.getD (2 ^ 64 - 1)
    if 0 < expected ∧ expected < minSeen then return ⟨backtrack cfg firstMessageBlock scan, 0, seenCount⟩
    else return ⟨scan, 0, seenCount⟩
  | first :: later =>
    match ← attempt (InboxTracker.addSequencerBatchesAndStream (first :: later)) with
    | .error _ => return ⟨scan, 0, seenCount⟩
    | .ok _ =>
      return ⟨scan, (first :: later).length,
        max seenCount (((first :: later).getLast (List.cons_ne_nil _ _)).sequenceNumber + 1)⟩

/-- A failed lookup reads as no batches. -/
def fetchBatches (cfg : InboxReaderConfig) (l1 : L1Calls) (firstMessageBlock : Nat) (scan : Scan)
    (toBlock seenCount : Nat) : EStateM ReaderError InboxTracker Fetched :=
  match (l1.sequencerInbox.lookupBatchesInRange scan.fromBlock toBlock).toOption.getD [] with
  | [] => return ⟨scan, 0, seenCount⟩
  | batches => do
    let good ← lift (fetchData l1.sequencerInbox batches)
    backfillDelayed l1.backfill firstMessageBlock scan.fromBlock toBlock good
    onTracker (ingestBatches cfg firstMessageBlock scan seenCount good)

end

/-- A window without messages grows, one with more than the target shrinks. -/
def nextBlocksToFetch (cfg : InboxReaderConfig) (blocksToFetch haveMessages : Nat) : Nat :=
  let scaled :=
    if haveMessages = 0 then saturate (blocksToFetch + (blocksToFetch + 4) / 5)
    else if saturate (cfg.targetMessagesRead * 3) / 2 ≤ haveMessages then
      blocksToFetch - (blocksToFetch + 4) / 5
    else blocksToFetch
  if scaled < cfg.minBlocksToRead then cfg.minBlocksToRead
  else if cfg.maxBlocksToRead < scaled then cfg.maxBlocksToRead
  else scaled

/-- The last part of an iteration: where the next one starts. -/
def nextScan (cfg : InboxReaderConfig) (firstMessageBlock toBlock : Nat) (reorging : Bool)
    (haveMessages : Nat) (scan : Scan) : Except ReaderError Scan :=
  let blocksToFetch := nextBlocksToFetch cfg scan.blocksToFetch haveMessages
  if reorging then
    (getPrevBlockForReorg firstMessageBlock scan.fromBlock blocksToFetch).map (⟨·, cfg.minBlocksToRead⟩)
  else if 0 < haveMessages then .ok ⟨saturate (toBlock + 1), blocksToFetch⟩
  else .ok ⟨scan.fromBlock, blocksToFetch⟩

/-- The window of an iteration in latest mode, once the observed header is high enough. -/
def latestWindow (cfg : InboxReaderConfig) (firstMessageBlock latest fromBlock : Nat) : Option (Nat × Nat) :=
  if latest < saturate (fromBlock + (cfg.delayBlocks + (cfg.minBlocksToRead - 1))) then none
  else
    let height := max (latest - cfg.delayBlocks) firstMessageBlock
    some (min fromBlock height, height)

def withTracker (x : EStateM ε InboxTracker α) : EStateM ε InboxReader α :=
  zoom tracker (fun r t => { r with tracker := t }) x

def getNextBlockToRead (r : InboxReader) : Except Error Nat := do
  let delayedCount ← InboxTracker.getDelayedCount r.tracker.db
  if delayedCount = 0 then return r.firstMessageBlock
  else
    let (_, _, parentBlock) ← InboxTracker.getDelayedMessageAccumulatorAndParentChainBlockNumber
      r.tracker.db (delayedCount - 1)
    return max parentBlock r.firstMessageBlock

section
variable [Externals]

def fetchMissingDelayed (l1 : L1Calls) (delayed : DelayedCheck) (fromBlock toBlock : Nat) :
    EStateM ReaderError InboxTracker Nat :=
  if delayed.missing || delayed.reorging then
    fetchDelayed l1.delayedBridge.lookupMessagesInRange fromBlock toBlock
  else return 0

def fetchMissingBatches (cfg : InboxReaderConfig) (l1 : L1Calls) (firstMessageBlock : Nat)
    (sequencer : SequencerCheck) (scan : Scan) (toBlock : Nat) : EStateM ReaderError InboxTracker Fetched :=
  if sequencer.missing || sequencer.reorging then
    fetchBatches cfg l1 firstMessageBlock scan toBlock sequencer.seenCount
  else return ⟨scan, 0, sequencer.seenCount⟩

/-- The fetches of an iteration, up to the window update. -/
def fetchWindow (cfg : InboxReaderConfig) (l1 : L1Calls) (firstMessageBlock toBlock : Nat)
    (delayed : DelayedCheck) (sequencer : SequencerCheck) (scan : Scan) :
    EStateM ReaderError InboxTracker (Nat × Fetched) := do
  let delayedLen ← fetchMissingDelayed l1 delayed scan.fromBlock toBlock
  let fetched ← fetchMissingBatches cfg l1 firstMessageBlock sequencer scan toBlock
  return (delayedLen, fetched)

/-- One iteration of the loop of `start`, from the checks on. -/
def iterate (cfg : InboxReaderConfig) (latestMode : Bool) (l1 : L1Calls) (height : Nat) (scan : Scan) :
    EStateM ReaderError InboxReader Scan := do
  let r ← read
  let (delayed, sequencer) ← withTracker (onTracker (check l1 height))
  if nothingMissing delayed sequencer then
    update fun r => { r with
      lastReadBatchCount := sequencer.checkingCount
      lastSeenBatchCount := sequencer.seenCount
      caughtUp := r.caughtUp || latestMode }
    return ⟨saturate (height + 1), cfg.defaultBlocksToRead⟩
  else
    let toBlock := min (saturate (scan.fromBlock + scan.blocksToFetch)) height
    let (delayedLen, fetched) ← withTracker
      (fetchWindow cfg l1 r.firstMessageBlock toBlock delayed sequencer scan)
    update fun r => { r with
      lastReadBatchCount := sequencer.checkingCount
      lastSeenBatchCount := fetched.seenCount }
    lift (nextScan cfg r.firstMessageBlock toBlock (delayed.reorging || sequencer.reorging)
      (delayedLen + fetched.batchesLen) fetched.scan)

end

end InboxReader
end NitroRs
