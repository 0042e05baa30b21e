import NitroRs.Inbox.Panics
import NitroRs.Inbox.Tracker
import NitroRs.Streamer.ByteAppend

/-! The inbox tracker on the bytes of the database: the entries that it puts together and takes
apart, the keys that it reads back, and its additions, which are checked. -/
namespace NitroRs
open Checked Outcome Simulation

structure SledTracker where
  db : SledDb
  batchMetaCache : Lru.LruCache Nat BatchMetadata

namespace SledTracker
variable (rlp : AlloyRlp)

def new (db : SledDb) : SledTracker := ⟨db, .new 1000⟩

def writeBatch (batch : SledBatch) : EStateM (Stop StorageError) SledTracker Unit :=
  update fun t => { t with db := batch.write t.db }

def onStreamer {α : Type} (x : EStateM (Stop StorageError) SledDb α) : EStateM (Stop StorageError) SledTracker α :=
  zoom db (fun t db => { t with db }) x

/-- Queue a zero for a counter without a value. -/
def zeroIfMissing (db : SledDb) (key : Bytes) (batch : SledBatch) : SledBatch :=
  if db.has key then batch else batch.put key (rlp.u64.encode 0)

def initializeTracker : EStateM (Stop StorageError) SledTracker Unit := do
  let t ← read
  let batch := zeroIfMissing rlp t.db delayedMessageCountKey .new
  let batch := zeroIfMissing rlp t.db sequencerBatchCountKey batch
  let batch := zeroIfMissing rlp t.db messageCountKey batch
  writeBatch batch

section
variable [Externals]

def getDelayedAcc (db : SledDb) (seqnum : Nat) : Except Error B256 :=
  let rlpKey := dbKey rlpDelayedMessagePrefix (.ofNat seqnum)
  if db.has rlpKey then do
    let data ← db.get rlpKey
    InboxTracker.accumulatorAfter .plain data
  else
    let legacyKey := dbKey legacyDelayedMessagePrefix (.ofNat seqnum)
    if db.has legacyKey then do
      let data ← db.get legacyKey
      InboxTracker.accumulatorAfter .legacy data
    else .error (.noDelayedAccumulator seqnum)

end

def getDelayedCount (db : SledDb) : Except (Stop StorageError) Nat := db.readU64 rlp delayedMessageCountKey

def getBatchMetadata (seqnum : Nat) : EStateM (Stop StorageError) SledTracker BatchMetadata := do
  let t ← read
  let (hit, cache) := t.batchMetaCache.get seqnum
  match hit with
  | some metadata => do
    update fun t => { t with batchMetaCache := cache }
    return metadata
  | none =>
    let key := dbKey sequencerBatchMetaPrefix (.ofNat seqnum)
    if !t.db.has key then throw (.error (.node (.noBatchMetadata seqnum)))
    else do
      let data ← lift (t.db.read key)
      let metadata ← lift (decoded (BatchMetadata.decode rlp data))
      update fun t => { t with batchMetaCache := cache.put seqnum metadata }
      return metadata

def getBatchMessageCount (seqnum : Nat) : EStateM (Stop StorageError) SledTracker Nat := do
  let metadata ← getBatchMetadata rlp seqnum
  return metadata.messageCount

/-- The loop of `get_batch_count`: down to the last batch that has metadata. -/
def repairCount (db : SledDb) : Nat → Nat
  | 0 => 0
  | n + 1 => if db.has (dbKey sequencerBatchMetaPrefix (.ofNat n)) then n + 1 else repairCount db n

def getBatchCount : EStateM (Stop StorageError) SledTracker Nat := do
  let t ← read
  let count ← lift (t.db.readU64 rlp sequencerBatchCountKey)
  let repaired := repairCount t.db count
  if repaired = count then return count
  else do
    writeBatch (SledBatch.new.put sequencerBatchCountKey (rlp.u64.encode (.ofNat repaired)))
    return repaired

/-- The index within a key of batch metadata, if the key is long enough. -/
def popIndex (key : Bytes) (cache : Lru.LruCache Nat BatchMetadata) : Lru.LruCache Nat BatchMetadata :=
  let prefixLen := sequencerBatchMetaPrefix.length
  if prefixLen + 8 ≤ key.length then cache.pop (BigEndian.value ((key.drop prefixLen).take 8)) else cache

/-- The deletions are written at once, in a batch of their own. -/
def deleteBatchMetadataStartingAt (start : Nat) : EStateM (Stop StorageError) SledTracker Unit := do
  let t ← read
  let it := SledIter.new t.db sequencerBatchMetaPrefix (uint64ToKey (.ofNat start))
  let (it, batch, cache) ← lift (it.forEach (fun key _ (batch, cache) =>
    .ok (SledBatch.delete batch key, popIndex key cache)) (SledBatch.new, t.batchMetaCache))
  update fun t => { t with batchMetaCache := cache }
  match it.error with
  | some err => throw (.error (.iterator err))
  | none => writeBatch batch

/-- The body of the loop over the batches that a delayed reorg undoes. -/
def reorgEntry (newDelayedCount : Nat) (canReorgBatches : Bool) (key value : Bytes)
    (acc : SledBatch × Option Nat) : Except (Stop StorageError) (SledBatch × Option Nat) := do
  let (batchSeqNum, _) ← decoded (rlp.u64.decode value)
  if !canReorgBatches then throw (.error (.node (.batchReorgDisabled batchSeqNum.toNat newDelayedCount)))
  else return (acc.1.delete key, acc.2.or (some batchSeqNum.toNat))

/-- The deletions of `set_delayed_count_reorg_and_write_batch`, and the count. -/
def cutDelayed (db : SledDb) (batch : SledBatch) (newDelayedCount : Nat) : Except (Stop StorageError) SledBatch := do
  let start := uint64ToKey (.ofNat newDelayedCount)
  let batch ← iterated (deleteStartingAt db batch rlpDelayedMessagePrefix start)
  let batch ← iterated (deleteStartingAt db batch parentChainBlockNumberPrefix start)
  let batch ← iterated (deleteStartingAt db batch legacyDelayedMessagePrefix start)
  return batch.put delayedMessageCountKey (rlp.u64.encode (.ofNat newDelayedCount))

/-- Returns the queue that the source extends; batch metadata is deleted at once. -/
def setDelayedCountReorgAndWriteBatch (batch : SledBatch) (firstNewDelayedMessagePos newDelayedCount : Nat)
    (canReorgBatches : Bool) : EStateM (Stop StorageError) SledTracker SledBatch := do
  let t ← read
  if newDelayedCount < firstNewDelayedMessagePos then
    throw (.error (.node (.delayedPositionPastCount firstNewDelayedMessagePos newDelayedCount)))
  else do
    let batch ← lift (cutDelayed rlp t.db batch newDelayedCount)
    let next ← lift (ofPanic (add64 firstNewDelayedMessagePos 1))
    let seqIter := SledIter.new t.db delayedSequencedPrefix (uint64ToKey (.ofNat next))
    let (seqIter, batch, reorgSeqBatchesToCount) ← lift
      (seqIter.forEach (reorgEntry rlp newDelayedCount canReorgBatches) (batch, none))
    match seqIter.error with
    | some err => throw (.error (.iterator err))
    | none =>
      match reorgSeqBatchesToCount with
      | none => return batch
      | some count => do
        let batch := batch.put sequencerBatchCountKey (rlp.u64.encode (.ofNat count))
        deleteBatchMetadataStartingAt count
        return batch

def reorgDelayedTo (newDelayedCount : Nat) : EStateM (Stop StorageError) SledTracker Unit := do
  let batch ← setDelayedCountReorgAndWriteBatch rlp .new newDelayedCount newDelayedCount true
  writeBatch batch

/-- The snap sync loop: drop the messages below `firstKeep`. -/
def skipBefore (firstKeep : Nat) : B256 → List DelayedInput → Except Panic (B256 × List DelayedInput)
  | acc, [] => .ok (acc, [])
  | acc, (pos, beforeAcc, bytes) :: rest => do
    let next ← add64 pos 1
    let acc := if next = firstKeep then beforeAcc else acc
    if pos < firstKeep then skipBefore firstKeep acc rest else return (acc, (pos, beforeAcc, bytes) :: rest)

/-- The accumulator to start from and the messages that snap sync keeps. -/
def snapSyncSkip (snapSync : Option SnapSyncConfig) (messages : List DelayedInput) :
    Except Panic (B256 × List DelayedInput) :=
  match snapSync, messages with
  | some cfg, (pos, _) :: _ =>
    if cfg.enabled ∧ pos < cfg.delayedCount then
      let firstKeep := if 0 < cfg.delayedCount then cfg.delayedCount - 1 else cfg.delayedCount
      skipBefore firstKeep .zero messages
    else .ok (.zero, messages)
  | _, _ => .ok (.zero, messages)

section
variable [Externals]

/-- The loop of `add_delayed_messages`: check each message and queue its entry. -/
def queueDelayed : Nat → B256 → List DelayedInput → SledBatch → Except (Stop StorageError) (SledBatch × Nat)
  | pos, _, [], batch => .ok (batch, pos)
  | pos, nextAcc, (seqnum, beforeAcc, bytes) :: rest, batch =>
    if seqnum ≠ pos then .error (.error (.node (.unexpectedDelayed seqnum pos)))
    else do
      let msg ← onBytes (parseIncomingL1MessageLegacy bytes)
      let computedAfter := hashAfter nextAcc (delayedMessageBodyHash msg).val
      if nextAcc ≠ beforeAcc then throw (.error (.node (.previousDelayedMismatch seqnum)))
      else do
        let batch := batch.put (dbKey rlpDelayedMessagePrefix (.ofNat seqnum)) (nextAcc.val ++ bytes)
        let pos ← ofPanic (add64 pos 1)
        queueDelayed pos computedAfter rest batch

def previousAccumulator (db : SledDb) (startAcc : B256) (pos : Nat) : Except Error B256 :=
  if 0 < pos then
    match getDelayedAcc db (pos - 1) with
    | .ok prev => .ok prev
    | .error _ => .error .missingPreviousDelayed
  else .ok startAcc

def addDelayedMessages (messages : List DelayedInput) (snapSync : Option SnapSyncConfig) :
    EStateM (Stop StorageError) SledTracker Unit := do
  let t ← read
  let (startAcc, kept) ← lift (ofPanic (snapSyncSkip snapSync messages))
  match kept with
  | [] => return ()
  | (firstPos, _) :: _ => do
    let nextAcc ← lift (onBytes (previousAccumulator t.db startAcc firstPos))
    let (batch, pos) ← lift (queueDelayed firstPos nextAcc kept .new)
    let batch ← setDelayedCountReorgAndWriteBatch rlp batch firstPos pos true
    writeBatch batch

/-- The validation loop of `add_sequencer_batches`, up to the position behind the last batch. -/
def checkBatches (db : SledDb) : Nat → B256 → List SequencerInboxBatch → Except (Stop StorageError) Nat
  | pos, _, [] => .ok pos
  | pos, nextAcc, b :: later =>
    if b.sequenceNumber ≠ pos then .error (.error (.node (.unexpectedBatch b.sequenceNumber pos)))
    else if nextAcc ≠ b.beforeInboxAcc then .error (.error (.node .batchAccumulatorMismatch))
    else if 0 < b.afterDelayedCount ∧
        (getDelayedAcc db (b.afterDelayedCount - 1)).toOption ≠ some b.afterDelayedAcc then
      .error (.error (.node .delayedAccumulatorMismatch))
    else do
      let pos ← ofPanic (add64 pos 1)
      checkBatches db pos b.afterInboxAcc later

/-- The metadata loop of `add_sequencer_batches`. -/
def describeBatches : BatchMetadata → List SequencerInboxBatch → SledBatch → List (Nat × BatchMetadata) →
    Except (Stop StorageError) (SledBatch × List (Nat × BatchMetadata))
  | _, [], batch, toCache => .ok (batch, toCache)
  | last, b :: later, batch, toCache => do
    let seqMsg ← onBytes (parseSequencerMessage b.serialized)
    let l2Count := seqMsg.segments.countP InboxTracker.isL2Segment
    let delayedInc := b.afterDelayedCount - last.delayedMessageCount
    let msgCount ← ofPanic (add64 last.messageCount l2Count)
    let msgCount ← ofPanic (add64 msgCount delayedInc)
    let metadata : BatchMetadata := ⟨b.afterInboxAcc, msgCount, b.afterDelayedCount, b.parentChainBlockNumber⟩
    let batch := batch.put (dbKey sequencerBatchMetaPrefix (.ofNat b.sequenceNumber)) (metadata.encode rlp)
    let batch := if last.delayedMessageCount < b.afterDelayedCount then
        batch.put (dbKey delayedSequencedPrefix (.ofNat b.afterDelayedCount)) (rlp.u64.encode (.ofNat b.sequenceNumber))
      else batch
    describeBatches metadata later batch (toCache ++ [(b.sequenceNumber, metadata)])

/-- The stored metadata of the batch before a sequence number. -/
def previousMetadata (firstSeq : Nat) : EStateM (Stop StorageError) SledTracker BatchMetadata :=
  if 0 < firstSeq then getBatchMetadata rlp (firstSeq - 1) else return .zero

def addSequencerBatches (batches : List SequencerInboxBatch) : EStateM (Stop StorageError) SledTracker Unit :=
  match batches with
  | [] => return ()
  | first :: _ => do
    let prevMeta ← previousMetadata rlp first.sequenceNumber
    let t ← read
    let next ← lift (ofPanic (add64 prevMeta.delayedMessageCount 1))
    let batch ← lift (iterated (deleteStartingAt t.db .new delayedSequencedPrefix (uint64ToKey (.ofNat next))))
    let pos ← lift (checkBatches t.db first.sequenceNumber prevMeta.accumulator batches)
    let (batch, toCache) ← lift (describeBatches rlp prevMeta batches batch [])
    deleteBatchMetadataStartingAt pos
    writeBatch (batch.put sequencerBatchCountKey (rlp.u64.encode (.ofNat pos)))
    update fun t => { t with
      batchMetaCache := toCache.foldl (fun cache entry => cache.put entry.1 entry.2) t.batchMetaCache }

end

/-- The loop of `find_inbox_batch_containing_message`, with an iteration bound. -/
def searchBatches (pos : Nat) : Nat → Nat → Nat → EStateM (Stop StorageError) SledTracker (Nat × Bool)
  | 0, _, _ => throw (.error (.node .outOfFuel))
  | fuel + 1, low, high => do
    let sum ← lift (ofPanic (add64 low high))
    let mid := sum / 2
    let count ← getBatchMessageCount rlp mid
    if count < pos then do
      let low ← lift (ofPanic (add64 mid 1))
      if high = low then return (high, true) else searchBatches pos fuel low high
    else if count = pos then do
      let next ← lift (ofPanic (add64 mid 1))
      return (next, true)
    else do
      let next ← lift (ofPanic (add64 pos 1))
      if count = next ∨ mid = low then return (mid, true)
      else if mid = low then return (mid, true)
      else searchBatches pos fuel low mid

def findInboxBatchContainingMessage (pos : Nat) : EStateM (Stop StorageError) SledTracker (Nat × Bool) := do
  let batchCount ← getBatchCount rlp
  if batchCount = 0 then return (0, false)
  else do
    let high := batchCount - 1
    let lastCount ← getBatchMessageCount rlp high
    if lastCount ≤ pos then return (0, false) else searchBatches rlp pos (high + 1) 0 high

def legacyGetDelayedMessageAndAccumulator (db : SledDb) (seqnum : Nat) : Except Error (L1IncomingMessage × B256) := do
  let data ← db.get (dbKey legacyDelayedMessagePrefix (.ofNat seqnum))
  let (acc, msg) ← InboxTracker.splitEntry .legacy data
  return (msg, acc)

/-- The block number that an entry of its own gives a delayed message. -/
def parentChainBlock (db : SledDb) (seqnum : Nat) (msg : L1IncomingMessage) : Except Error Nat :=
  let pkey := dbKey parentChainBlockNumberPrefix (.ofNat seqnum)
  if db.has pkey then do
    let v ← db.get pkey
    if v.length ≠ 8 then throw .invalidParentChainBlock else return BigEndian.value v
  else .ok msg.header.blockNumber.toNat

def getDelayedMessageAccumulatorAndParentChainBlockNumber (db : SledDb) (seqnum : Nat) :
    Except Error (L1IncomingMessage × B256 × Nat) :=
  let key := dbKey rlpDelayedMessagePrefix (.ofNat seqnum)
  if db.has key then do
    let data ← db.get key
    let (acc, msg) ← InboxTracker.splitEntry .new data
    let parentBlock ← parentChainBlock db seqnum msg
    return (msg, acc, parentBlock)
  else do
    let (msg, acc) ← legacyGetDelayedMessageAndAccumulator db seqnum
    return (msg, acc, 0)

def getDelayedMessage (db : SledDb) (seqnum : Nat) : Except Error L1IncomingMessage := do
  let (msg, _, _) ← getDelayedMessageAccumulatorAndParentChainBlockNumber db seqnum
  return msg

def getDelayedMessageBytes (db : SledDb) (seqnum : Nat) : Except Error Bytes := do
  let msg ← getDelayedMessage db seqnum
  serializeIncomingL1MessageLegacy msg

/-- The `map_err` of `reorg_batches_to_db`. -/
def futureBatch : StorageError → StorageError
  | .node cause => .node (.reorgToFutureBatch cause)
  | cause => .reorgToFutureBatch cause

def reorgBatchesToDb (count : Nat) : EStateM (Stop StorageError) SledTracker Nat := do
  let prevBatchMeta ← mapCause futureBatch (previousMetadata rlp count)
  let t ← read
  let next ← lift (ofPanic (add64 prevBatchMeta.delayedMessageCount 1))
  let batch ← lift (iterated (deleteStartingAt t.db .new delayedSequencedPrefix (uint64ToKey (.ofNat next))))
  deleteBatchMetadataStartingAt count
  writeBatch (batch.put sequencerBatchCountKey (rlp.u64.encode (.ofNat count)))
  return prevBatchMeta.messageCount

/-- The delayed count that the cold-start and alignment branches start from. -/
def realignedDelayed (db : SledDb) (prevMeta : BatchMetadata) : Except (Stop StorageError) Nat :=
  if prevMeta.delayedMessageCount = 0 then
    match getDelayedCount rlp db with
    | .error (.error _) => .ok prevMeta.delayedMessageCount
    | result => result
  else .ok prevMeta.delayedMessageCount

/-- Whether a window is streamed although the message count is not the expected one. -/
def isAligned (firstSeq dbCount : Nat) : EStateM (Stop StorageError) SledTracker Bool := do
  let batchCount ← Simulation.attempt (getBatchCount rlp)
  if batchCount.toOption.getD 0 = 0 ∧ firstSeq = 0 ∧ 0 < dbCount then return true
  else do
    match ← Simulation.attempt (findInboxBatchContainingMessage rlp dbCount) with
    | .ok (batchIdx, true) => return (batchIdx = firstSeq : Bool)
    | _ => return false

/-- Where the messages are appended and the delayed count they are multiplexed from. -/
def alignWindow (firstSeq : Nat) (prevMeta : BatchMetadata) (dbCount : Nat) :
    EStateM (Stop StorageError) SledTracker (Option (Nat × Nat)) :=
  if dbCount = prevMeta.messageCount then
    return some (prevMeta.messageCount, prevMeta.delayedMessageCount)
  else do
    let aligned ← isAligned rlp firstSeq dbCount
    if aligned then do
      let t ← read
      let lastDelayed ← lift (realignedDelayed rlp t.db prevMeta)
      return some (dbCount, lastDelayed)
    else return none

section
variable [Externals]

/-- The drain loop over the multiplexer whose operations are checked. -/
def drain : Nat → InboxMultiplexer → Except (Stop StorageError) (List MessageWithMetadataAndBlockInfo)
  | 0, _ => .error (.error (.node .outOfFuel))
  | fuel + 1, mux => do
    match ← ofPanic (Panics.pop mux) with
    | .error e _ => throw (.error (.node e))
    | .ok none _ => return []
    | .ok (some m) mux => do
      let out ← drain fuel mux
      return m :: out

/-- The messages of a list of batches. The iteration bound is that of the model on tables. -/
@[irreducible] def streamBatches (db : SledDb) (batches : List SequencerInboxBatch) (delayedMessagesRead : Nat) :
    Except (Stop StorageError) (List MessageWithMetadataAndBlockInfo) :=
  drain (batches.length * Feed.batchSteps + 1)
    (InboxMultiplexer.new ⟨batches, 0, 0, getDelayedMessage db⟩ delayedMessagesRead)

/-- The part of `add_sequencer_batches_and_stream` behind the alignment. -/
def ingestWindow (batches : List SequencerInboxBatch) (messageCount lastDelayed : Nat) :
    EStateM (Stop StorageError) SledTracker Unit := do
  let t ← read
  let out ← lift (streamBatches t.db batches lastDelayed)
  if out.isEmpty then return ()
  else do
    let curDbCount ← lift (t.db.readU64 rlp messageCountKey)
    if curDbCount ≠ messageCount then throw (.error (.node (.nonContiguousAppend curDbCount messageCount)))
    else do
      onStreamer (SledStreamer.addConfirmedMessagesAndEndBatch rlp messageCount out none)
      addSequencerBatches rlp batches

def addSequencerBatchesAndStream (batches : List SequencerInboxBatch) : EStateM (Stop StorageError) SledTracker Unit :=
  match batches with
  | [] => return ()
  | first :: _ => do
    let prevMeta ← previousMetadata rlp first.sequenceNumber
    let t ← read
    let dbCount ← lift (t.db.readU64 rlp messageCountKey)
    match ← alignWindow rlp first.sequenceNumber prevMeta dbCount with
    | none => return ()
    | some (messageCount, lastDelayed) => ingestWindow rlp batches messageCount lastDelayed

end

end SledTracker
end NitroRs
