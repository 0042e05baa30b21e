import NitroRs.Inbox.Feed
import NitroRs.Streamer.Streamer
import NitroRs.Lib.Checked
import NitroRs.Lib.Lru

/-! The inbox tracker: delayed messages and sequencer batches in the database,
the index from delayed counts to batches, and the reorgs of both. -/
namespace NitroRs
open KeyValue Outcome
open Checked (wrappingAdd64)

structure SnapSyncConfig where
  enabled : Bool
  delayedCount : Nat

structure InboxTracker where
  db : Db
  batchMetaCache : Lru.LruCache Nat BatchMetadata

/-- A delayed message as the reader passes it: sequence number, accumulator
before it, and bytes in the legacy format. -/
abbrev DelayedInput := Nat × B256 × Bytes

namespace InboxTracker

def new (db : Db) : InboxTracker := ⟨db, .new 1000⟩

def writeBatch (ops : List DbOp) : EStateM Error InboxTracker Unit :=
  update fun t => { t with db := t.db.write ops }

def onStreamer (x : EStateM Error Db α) : EStateM Error InboxTracker α :=
  zoom db (fun t db => { t with db }) x

/-- Queue a zero for a counter without a value. -/
def zeroIfMissing (db : Db) (c : Counter) : List DbOp :=
  if (db.count c).isNone then [.setCount c 0] else []

def initializeTracker : EStateM Error InboxTracker Unit := do
  let t ← read
  writeBatch (zeroIfMissing t.db .delayedMessageCount ++ zeroIfMissing t.db .sequencerBatchCount ++
    zeroIfMissing t.db .messageCount)

/-- A delayed entry: the accumulator before the message, then its bytes. -/
def splitEntry (label : EntryLabel) (data : Bytes) : Except Error (B256 × L1IncomingMessage) :=
  if enough : 32 ≤ data.length then do
    let msg ← parseIncomingL1MessageLegacy (data.drop 32)
    return (⟨data.take 32, by simp [enough]⟩, msg)
  else .error (.entryMissingAccumulator label)

section
variable [Externals]

def accumulatorAfter (label : EntryLabel) (data : Bytes) : Except Error B256 := do
  let (prev, msg) ← splitEntry label data
  return hashAfter prev (delayedMessageBodyHash msg).val

def getDelayedAcc (db : Db) (seqnum : Nat) : Except Error B256 :=
  match db.get .rlpDelayedMessage seqnum with
  | some data => accumulatorAfter .plain data
  | none =>
    match db.get .legacyDelayedMessage seqnum with
    | some data => accumulatorAfter .legacy data
    | none => .error (.noDelayedAccumulator seqnum)

end

def getDelayedCount (db : Db) : Except Error Nat := db.readCount .delayedMessageCount

def getBatchMetadata (seqnum : Nat) : EStateM Error InboxTracker BatchMetadata := do
  let t ← read
  let (hit, cache) := t.batchMetaCache.get seqnum
  match hit with
  | some metadata =>
    update fun t => { t with batchMetaCache := cache }
    return metadata
  | none =>
    match t.db.get .sequencerBatchMeta seqnum with
    | none => throw (.noBatchMetadata seqnum)
    | some metadata =>
      update fun t => { t with batchMetaCache := cache.put seqnum metadata }
      return metadata

def getBatchMessageCount (seqnum : Nat) : EStateM Error InboxTracker Nat := do
  let metadata ← getBatchMetadata seqnum
  return metadata.messageCount

def getBatchParentChainBlock (seqnum : Nat) : EStateM Error InboxTracker Nat := do
  let metadata ← getBatchMetadata seqnum
  return metadata.parentChainBlock

def getBatchAcc (seqnum : Nat) : EStateM Error InboxTracker B256 := do
  let metadata ← getBatchMetadata seqnum
  return metadata.accumulator

/-- The loop of `get_batch_count`: down to the last batch that has metadata. -/
def repairCount (db : Db) : Nat → Nat
  | 0 => 0
  | n + 1 => if db.has .sequencerBatchMeta n then n + 1 else repairCount db n

def getBatchCount : EStateM Error InboxTracker Nat := do
  let t ← read
  let count ← lift (t.db.readCount .sequencerBatchCount)
  let repaired := repairCount t.db count
  if repaired = count then return count
  else
    writeBatch [.setCount .sequencerBatchCount repaired]
    return repaired

/-- The deletions are written at once, not queued. -/
def deleteBatchMetadataStartingAt (start : Nat) : EStateM Error InboxTracker Unit :=
  update fun t =>
    { db := t.db.write (t.db.deleteFrom .sequencerBatchMeta start)
      batchMetaCache := (t.db.range .sequencerBatchMeta start).foldl
        (fun cache entry => cache.pop entry.1) t.batchMetaCache }

/-- Returns the queue that the source extends; batch metadata is deleted at once. -/
def setDelayedCountReorgAndWriteBatch (batch : List DbOp) (firstNewDelayedMessagePos newDelayedCount : Nat)
    (canReorgBatches : Bool) : EStateM Error InboxTracker (List DbOp) := do
  let t ← read
  if newDelayedCount < firstNewDelayedMessagePos then
    throw (.delayedPositionPastCount firstNewDelayedMessagePos newDelayedCount)
  else
    let batch := batch ++ t.db.deleteFrom .rlpDelayedMessage newDelayedCount ++
      t.db.deleteFrom .parentChainBlockNumber newDelayedCount ++
      t.db.deleteFrom .legacyDelayedMessage newDelayedCount ++
      [.setCount .delayedMessageCount newDelayedCount]
    match t.db.range .delayedSequenced (wrappingAdd64 firstNewDelayedMessagePos 1) with
    | [] => return batch
    | (_, batchSeqNum) :: _ =>
      if !canReorgBatches then throw (.batchReorgDisabled batchSeqNum newDelayedCount)
      else
        deleteBatchMetadataStartingAt batchSeqNum
        return batch ++ t.db.deleteFrom .delayedSequenced (wrappingAdd64 firstNewDelayedMessagePos 1) ++
          [.setCount .sequencerBatchCount batchSeqNum]

def reorgDelayedTo (newDelayedCount : Nat) : EStateM Error InboxTracker Unit := do
  let batch ← setDelayedCountReorgAndWriteBatch [] newDelayedCount newDelayedCount true
  writeBatch batch

/-- The snap sync loop: drop the messages below `firstKeep`. -/
def skipBefore (firstKeep : Nat) : B256 → List DelayedInput → B256 × List DelayedInput
  | acc, [] => (acc, [])
  | acc, (pos, beforeAcc, bytes) :: rest =>
    let acc := if pos + 1 = firstKeep then beforeAcc else acc
    if pos < firstKeep then skipBefore firstKeep acc rest else (acc, (pos, beforeAcc, bytes) :: rest)

/-- The accumulator to start from and the messages that snap sync keeps. -/
def snapSyncSkip (snapSync : Option SnapSyncConfig) (messages : List DelayedInput) :
    B256 × List DelayedInput :=
  match snapSync, messages with
  | some cfg, (pos, _) :: _ =>
    if cfg.enabled ∧ pos < cfg.delayedCount then skipBefore (cfg.delayedCount - 1) .zero messages
    else (.zero, messages)
  | _, _ => (.zero, messages)

section
variable [Externals]

/-- The loop of `add_delayed_messages`: check each message and queue its entry. -/
def queueDelayed : Nat → B256 → List DelayedInput → Except Error (List DbOp)
  | _, _, [] => .ok []
  | pos, nextAcc, (seqnum, beforeAcc, bytes) :: rest =>
    if seqnum ≠ pos then .error (.unexpectedDelayed seqnum pos)
    else
      match parseIncomingL1MessageLegacy bytes with
      | .error e => .error e
      | .ok msg =>
        if nextAcc ≠ beforeAcc then .error (.previousDelayedMismatch seqnum)
        else do
          let ops ← queueDelayed (pos + 1) (hashAfter nextAcc (delayedMessageBodyHash msg).val) rest
          return .put .rlpDelayedMessage seqnum (nextAcc.val ++ bytes) :: ops

/-- The accumulator before the first message: from its predecessor's entry unless
it is message 0. -/
def previousAccumulator (db : Db) (startAcc : B256) (pos : Nat) : Except Error B256 :=
  if pos = 0 then .ok startAcc
  else
    match getDelayedAcc db (pos - 1) with
    | .ok prev => .ok prev
    | .error _ => .error .missingPreviousDelayed

def addDelayedMessages (messages : List DelayedInput) (snapSync : Option SnapSyncConfig) :
    EStateM Error InboxTracker Unit := do
  let t ← read
  let (startAcc, kept) := snapSyncSkip snapSync messages
  match kept with
  | [] => return ()
  | (pos, _) :: _ =>
    let nextAcc ← lift (previousAccumulator t.db startAcc pos)
    let batch ← lift (queueDelayed pos nextAcc kept)
    let batch ← setDelayedCountReorgAndWriteBatch batch pos (pos + kept.length) true
    writeBatch batch

end

section
variable [Externals]

/-- The validation loop of `add_sequencer_batches`. -/
def checkBatches (db : Db) : Nat → B256 → List SequencerInboxBatch → Except Error Unit
  | _, _, [] => .ok ()
  | pos, nextAcc, b :: later =>
    if b.sequenceNumber ≠ pos then .error (.unexpectedBatch b.sequenceNumber pos)
    else if nextAcc ≠ b.beforeInboxAcc then .error .batchAccumulatorMismatch
    else if 0 < b.afterDelayedCount ∧
        (getDelayedAcc db (b.afterDelayedCount - 1)).toOption ≠ some b.afterDelayedAcc then
      .error .delayedAccumulatorMismatch
    else checkBatches db (pos + 1) b.afterInboxAcc later

def isL2Segment : Bytes → Bool
  | [] => false
  | kind :: _ => kind = batchSegmentKindL2Message || kind = batchSegmentKindL2MessageBrotli

def batchMetadata (last : BatchMetadata) (b : SequencerInboxBatch) (seq : SequencerMessage) :
    BatchMetadata where
  accumulator := b.afterInboxAcc
  messageCount := last.messageCount + seq.segments.countP isL2Segment +
    (b.afterDelayedCount - last.delayedMessageCount)
  delayedMessageCount := b.afterDelayedCount
  parentChainBlock := b.parentChainBlockNumber

/-- The metadata loop of `add_sequencer_batches`. -/
def describeBatches : BatchMetadata → List SequencerInboxBatch → Except Error (List (Nat × BatchMetadata))
  | _, [] => .ok []
  | last, b :: later =>
    match parseSequencerMessage b.serialized with
    | .error e => .error e
    | .ok seq => do
      let rest ← describeBatches (batchMetadata last b seq) later
      return (b.sequenceNumber, batchMetadata last b seq) :: rest

end

/-- The entries that the loop queues for the batches, each after the one before it. -/
def batchOps : BatchMetadata → List (Nat × BatchMetadata) → List DbOp
  | _, [] => []
  | last, (seqnum, metadata) :: rest =>
    .put .sequencerBatchMeta seqnum metadata ::
      (if last.delayedMessageCount < metadata.delayedMessageCount then
        [.put .delayedSequenced metadata.delayedMessageCount seqnum] else []) ++
      batchOps metadata rest

/-- The stored metadata of the batch before a sequence number. -/
def previousMetadata (firstSeq : Nat) : EStateM Error InboxTracker BatchMetadata :=
  if 0 < firstSeq then getBatchMetadata (firstSeq - 1) else return .zero

section
variable [Externals]

def addSequencerBatches (batches : List SequencerInboxBatch) : EStateM Error InboxTracker Unit :=
  match batches with
  | [] => return ()
  | first :: _ => do
    let prevMeta ← previousMetadata first.sequenceNumber
    let t ← read
    lift (checkBatches t.db first.sequenceNumber prevMeta.accumulator batches)
    let metas ← lift (describeBatches prevMeta batches)
    let pos := first.sequenceNumber + batches.length
    deleteBatchMetadataStartingAt pos
    writeBatch (t.db.deleteFrom .delayedSequenced (prevMeta.delayedMessageCount + 1) ++
      batchOps prevMeta metas ++ [.setCount .sequencerBatchCount pos])
    update fun t => { t with
      batchMetaCache := metas.foldl (fun cache entry => cache.put entry.1 entry.2) t.batchMetaCache }

end

/-- The loop of `find_inbox_batch_containing_message`, with an iteration bound. -/
def searchBatches (pos : Nat) : Nat → Nat → Nat → EStateM Error InboxTracker (Nat × Bool)
  | 0, _, _ => throw .outOfFuel
  | fuel + 1, low, high => do
    let mid := (low + high) / 2
    let count ← getBatchMessageCount mid
    if count < pos then
      if high = mid + 1 then return (high, true) else searchBatches pos fuel (mid + 1) high
    else if count = pos then return (mid + 1, true)
    else if count = pos + 1 ∨ mid = low then return (mid, true)
    -- `mid` is above `low` here, so the test after `high = mid` never returns
    else searchBatches pos fuel low mid

def findInboxBatchContainingMessage (pos : Nat) : EStateM Error InboxTracker (Nat × Bool) := do
  let batchCount ← getBatchCount
  if batchCount = 0 then return (0, false)
  else
    let high := batchCount - 1
    let lastCount ← getBatchMessageCount high
    if lastCount ≤ pos then return (0, false) else searchBatches pos (high + 1) 0 high

def legacyGetDelayedMessageAndAccumulator (db : Db) (seqnum : Nat) :
    Except Error (L1IncomingMessage × B256) :=
  match db.get .legacyDelayedMessage seqnum with
  | none => .error .notFound
  | some data => do
    let (acc, msg) ← splitEntry .legacy data
    return (msg, acc)

def getDelayedMessageAccumulatorAndParentChainBlockNumber (db : Db) (seqnum : Nat) :
    Except Error (L1IncomingMessage × B256 × Nat) :=
  match db.get .rlpDelayedMessage seqnum with
  | some data => do
    let (acc, msg) ← splitEntry .new data
    match db.get .parentChainBlockNumber seqnum with
    | none => return (msg, acc, msg.header.blockNumber.toNat)
    | some v =>
      if v.length ≠ 8 then throw .invalidParentChainBlock else return (msg, acc, BigEndian.value v)
  | none => do
    let (msg, acc) ← legacyGetDelayedMessageAndAccumulator db seqnum
    return (msg, acc, 0)

def getDelayedMessage (db : Db) (seqnum : Nat) : Except Error L1IncomingMessage := do
  let (msg, _, _) ← getDelayedMessageAccumulatorAndParentChainBlockNumber db seqnum
  return msg

def getDelayedMessageBytes (db : Db) (seqnum : Nat) : Except Error Bytes := do
  let msg ← getDelayedMessage db seqnum
  serializeIncomingL1MessageLegacy msg

def reorgBatchesToDb (count : Nat) : EStateM Error InboxTracker Nat := do
  let prevBatchMeta ← mapError .reorgToFutureBatch (previousMetadata count)
  let t ← read
  deleteBatchMetadataStartingAt count
  writeBatch (t.db.deleteFrom .delayedSequenced (prevBatchMeta.delayedMessageCount + 1) ++
    [.setCount .sequencerBatchCount count])
  return prevBatchMeta.messageCount

/-- The delayed count that the cold-start and alignment branches start from. -/
def realignedDelayed (db : Db) (prevMeta : BatchMetadata) : Nat :=
  if prevMeta.delayedMessageCount = 0 then
    match getDelayedCount db with
    | .ok count => count
    | .error _ => prevMeta.delayedMessageCount
  else prevMeta.delayedMessageCount

/-- Whether a window is streamed although the message count is not the expected
one: a cold start, or a count that falls in the window's first batch. -/
def isAligned (firstSeq dbCount : Nat) : EStateM Error InboxTracker Bool := do
  let batchCount ← attempt getBatchCount
  if batchCount.toOption.getD 0 = 0 ∧ firstSeq = 0 ∧ 0 < dbCount then return true
  else
    match ← attempt (findInboxBatchContainingMessage dbCount) with
    | .ok (batchIdx, true) => return (batchIdx = firstSeq : Bool)
    | _ => return false

/-- Where the messages are appended and the delayed count they are multiplexed
from; `none` skips the window. -/
def alignWindow (firstSeq : Nat) (prevMeta : BatchMetadata) (dbCount : Nat) :
    EStateM Error InboxTracker (Option (Nat × Nat)) :=
  if dbCount = prevMeta.messageCount then
    return some (prevMeta.messageCount, prevMeta.delayedMessageCount)
  else do
    let aligned ← isAligned firstSeq dbCount
    let t ← read
    return if aligned then some (dbCount, realignedDelayed t.db prevMeta) else none

section
variable [Externals]

/-- The messages of a list of batches, multiplexed over the stored delayed messages.
The iteration bound is never reached; it is not to be unfolded by unification. -/
@[irreducible] def streamBatches (db : Db) (batches : List SequencerInboxBatch) (delayedMessagesRead : Nat) :
    Except Error (List MessageWithMetadataAndBlockInfo) :=
  (InboxMultiplexer.new ⟨batches, 0, 0, getDelayedMessage db⟩ delayedMessagesRead).drain
    (batches.length * Feed.batchSteps + 1)

/-- The part of `add_sequencer_batches_and_stream` behind the alignment. -/
def ingestWindow (batches : List SequencerInboxBatch) (messageCount lastDelayed : Nat) :
    EStateM Error InboxTracker Unit := do
  let t ← read
  let out ← lift (streamBatches t.db batches lastDelayed)
  if out.isEmpty then return ()
  else
    let curDbCount ← lift (TransactionStreamer.getMessageCount t.db)
    if curDbCount ≠ messageCount then throw (.nonContiguousAppend curDbCount messageCount)
    else
      onStreamer (TransactionStreamer.addConfirmedMessagesAndEndBatch messageCount out none)
      addSequencerBatches batches

def addSequencerBatchesAndStream (batches : List SequencerInboxBatch) :
    EStateM Error InboxTracker Unit :=
  match batches with
  | [] => return ()
  | first :: _ => do
    let prevMeta ← previousMetadata first.sequenceNumber
    let t ← read
    let dbCount ← lift (TransactionStreamer.getMessageCount t.db)
    match ← alignWindow first.sequenceNumber prevMeta dbCount with
    | none => return ()
    | some (messageCount, lastDelayed) => ingestWindow batches messageCount lastDelayed

end

end InboxTracker
end NitroRs
