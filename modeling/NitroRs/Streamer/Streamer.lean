import NitroRs.Primitives.Database
import NitroRs.Lib.Outcome

/-! The transaction streamer: the message store that the batches and the
sequencer feed append to. -/
namespace NitroRs.TransactionStreamer
open KeyValue Outcome

def getMessageCount (db : Db) : Except Error Nat := db.readCount .messageCount

/-- `get_message_count().unwrap_or(0)`. -/
def messageCountOrZero (db : Db) : Nat := (db.count .messageCount).getD 0

def getHeadMessageIndex (db : Db) : Except Error Nat := do
  let count ← getMessageCount db
  -- with no message the head index is `u64::MAX`
  return if count = 0 then 2 ^ 64 - 1 else count - 1

def getMessage (db : Db) (index : Nat) : Except Error MessageWithMetadata :=
  match db.get .message index with
  | some m => .ok m
  | none => .error .notFound

def blockHashAtMessageIndex (db : Db) (index : Nat) : Option B256 :=
  (db.get .blockHashInputFeed index).join

def blockMetadataAtMessageIndex (db : Db) (index : Nat) : Option Bytes :=
  db.get .blockMetadataInputFeed index

def getMessageWithMetadataAndBlockInfo (db : Db) (index : Nat) :
    Except Error MessageWithMetadataAndBlockInfo := do
  let messageWithMeta ← getMessage db index
  return ⟨messageWithMeta, blockHashAtMessageIndex db index, blockMetadataAtMessageIndex db index⟩

def writeMessage (idx : Nat) (msg : MessageWithMetadataAndBlockInfo)
    (trackBlockMetadataFrom : Option Nat) : List DbOp :=
  .put .message idx msg.messageWithMeta :: .put .blockHashInputFeed idx msg.blockHash ::
    match trackBlockMetadataFrom with
    | none => []
    | some start =>
      if start ≤ idx then
        match msg.blockMetadata with
        | some metadata => [.put .blockMetadataInputFeed idx metadata]
        | none => [.put .missingBlockMetadataInputFeed idx ()]
      else []

/-- The messages at consecutive indices, then the count after the last one. -/
def writeMessages (trackBlockMetadataFrom : Option Nat) :
    Nat → List MessageWithMetadataAndBlockInfo → List DbOp
  | idx, [] => [.setCount .messageCount idx]
  | idx, m :: ms =>
      writeMessage idx m trackBlockMetadataFrom ++ writeMessages trackBlockMetadataFrom (idx + 1) ms

def addMessagesAndReorg (first : Nat) (newMessages : List MessageWithMetadataAndBlockInfo)
    (trackBlockMetadataFrom : Option Nat) : EStateM Error Db Unit := do
  if first = 0 then throw .reorgInitMessage
  else
    update fun db => db.write
      (db.deleteFrom .messageResult first ++ db.deleteFrom .blockHashInputFeed first ++
        db.deleteFrom .blockMetadataInputFeed first ++
        db.deleteFrom .missingBlockMetadataInputFeed first ++ db.deleteFrom .message first ++
        [.setCount .messageCount first])
    if newMessages.isEmpty then return ()
    else update fun db => db.write (writeMessages trackBlockMetadataFrom first newMessages)

/-- A message without an entry reads as zero delayed messages. -/
def getPrevPrevDelayedRead (db : Db) (idx : Nat) : Nat :=
  if idx = 0 then 0 else ((db.get .message (idx - 1)).map (·.delayedMessagesRead)).getD 0

def withoutGasCost (m : MessageWithMetadata) : MessageWithMetadata :=
  { m with message := { m.message with batchGasCost := none } }

/-- Equal, or equal but for a batch gas cost that one of the two lacks. -/
def isDuplicate (stored next : MessageWithMetadata) : Bool :=
  stored = next ||
    (stored.message.batchGasCost.isNone || next.message.batchGasCost.isNone) &&
      withoutGasCost stored = withoutGasCost next

/-- How many messages are stored already, and whether the next one differs from
its stored entry. The source's write-back batch is never written. -/
def countDuplicateMessages (db : Db) : Nat → List MessageWithMetadataAndBlockInfo → Nat × Bool
  | _, [] => (0, false)
  | idx, m :: ms =>
    match db.get .message idx with
    | none => (0, false)
    | some stored =>
      if isDuplicate stored m.messageWithMeta then
        let (dups, reorg) := countDuplicateMessages db (idx + 1) ms
        (dups + 1, reorg)
      else (0, true)

/-- Each message reads at most one delayed message more than the one before it. -/
def checkDelayedReads : Nat → Nat → List MessageWithMetadataAndBlockInfo → Except Error Unit
  | _, _, [] => .ok ()
  | idx, last, m :: ms =>
    if 1 < m.messageWithMeta.delayedMessagesRead - last then
      .error (.delayedReadJump last m.messageWithMeta.delayedMessagesRead idx)
    else checkDelayedReads (idx + 1) m.messageWithMeta.delayedMessagesRead ms

/-- The delayed count before the messages that are left after the duplicates. -/
def lastDelayedRead (db : Db) (first dups : Nat) (messages : List MessageWithMetadataAndBlockInfo) :
    Nat :=
  let last :=
    if dups = 0 then 0
    else ((messages[dups - 1]?).map (·.messageWithMeta.delayedMessagesRead)).getD 0
  let last := if last = 0 then getPrevPrevDelayedRead db (first + dups) else last
  match messages.drop dups with
  | [] => last
  | m :: _ =>
    if messageCountOrZero db < first + dups ∧ last = 0 then m.messageWithMeta.delayedMessagesRead
    else last

def addMessagesAndEndBatchImpl (first : Nat) (confirmed : Bool)
    (messages : List MessageWithMetadataAndBlockInfo) (trackBlockMetadataFrom : Option Nat) :
    EStateM Error Db Unit := do
  let db ← read
  if messageCountOrZero db ≠ first then
    throw (.nonContiguousAppend (messageCountOrZero db) first)
  else
    let (dups, reorg) := countDuplicateMessages db first messages
    if !confirmed && reorg then return ()
    else
      let fresh := messages.drop dups
      lift (checkDelayedReads (first + dups) (lastDelayedRead db first dups messages) fresh)
      if reorg then addMessagesAndReorg (first + dups) fresh trackBlockMetadataFrom
      else if fresh.isEmpty then return ()
      else update fun db => db.write (writeMessages trackBlockMetadataFrom (first + dups) fresh)

def reorgAtAndEndBatch (first : Nat) : EStateM Error Db Unit := addMessagesAndReorg first [] none

def addMessagesAndEndBatch (first : Nat) (newMessages : List MessageWithMetadataAndBlockInfo)
    (trackBlockMetadataFrom : Option Nat) : EStateM Error Db Unit :=
  addMessagesAndEndBatchImpl first false newMessages trackBlockMetadataFrom

def addConfirmedMessagesAndEndBatch (first : Nat)
    (newMessages : List MessageWithMetadataAndBlockInfo) (trackBlockMetadataFrom : Option Nat) :
    EStateM Error Db Unit :=
  addMessagesAndEndBatchImpl first true newMessages trackBlockMetadataFrom

end NitroRs.TransactionStreamer
