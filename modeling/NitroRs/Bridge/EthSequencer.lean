import NitroRs.Bridge.Rpc
import NitroRs.Primitives.Message

/-! The sequencer inbox over an L1 node: the batches of a range of blocks, and the data of a
batch that was posted in a log of its own. -/
namespace NitroRs
open Checked Hex

/-- A batch as the bridge returns it, with what its callers do not read. -/
structure BridgeBatch extends SequencerInboxBatch where
  afterMessageCount : Nat
  bridgeAddress : Address

structure EthSequencerInbox where
  rpc : RpcClient
  inboxAddr : Address

namespace EthSequencerInbox

/-- The words of a `SequencerBatchDelivered` log that follow the accumulator of the batch. -/
structure BatchWords where
  delayedAcc : B256
  afterDelayedCount : Nat
  timeBounds : TimeBounds
  dataLocation : UInt8

def batchWords (data : Bytes) (base : Nat) : Except Panic BatchWords := do
  let delayedAcc ← fixedSlice 32 data base
  let afterDelayedCount ← u64At data (base + 32)
  let minTimestamp ← u64At data (base + 64)
  let maxTimestamp ← u64At data (base + 96)
  let minBlockNumber ← u64At data (base + 128)
  let maxBlockNumber ← u64At data (base + 160)
  let dataLocation ← wordAt data (base + 192)
  let timeBounds := {
    minTimestamp := .ofNat minTimestamp
    maxTimestamp := .ofNat maxTimestamp
    minBlockNumber := .ofNat minBlockNumber
    maxBlockNumber := .ofNat maxBlockNumber }
  return { delayedAcc, afterDelayedCount, timeBounds, dataLocation := .ofNat dataLocation }

/-- The accumulator of the batch is a fourth topic or the first word of the data. -/
def batchLayout (lg : RpcLog) (data : Bytes) : Except Panic (B256 × BatchWords) :=
  if 4 ≤ lg.topics.length then do
    let topic ← index lg.topics 3
    let words ← batchWords data 0
    return (b256OrDefault topic, words)
  else do
    let afterInboxAcc ← fixedSlice 32 data 0
    let words ← batchWords data 32
    return (afterInboxAcc, words)

/-- One `SequencerBatchDelivered` log; `none` skips it. -/
def decodeBatch (lg : RpcLog) : Except (Stop BridgeError) (Option BridgeBatch) := do
  let data ← ofError (decodeHex lg.data)
  if lg.topics.length < 3 ∨ data.length < 32 * 7 then return none
  else
    let topic ← ofPanic (index lg.topics 1)
    let sequenceNumber ← ofPanic (narrow64 (BigEndian.value (b256OrDefault topic).val))
    let topic ← ofPanic (index lg.topics 2)
    let beforeInboxAcc := b256OrDefault topic
    let (afterInboxAcc, words) ← ofPanic (batchLayout lg data)
    return some {
      sequenceNumber
      beforeInboxAcc
      afterInboxAcc
      afterMessageCount := 0
      afterDelayedCount := words.afterDelayedCount
      afterDelayedAcc := words.delayedAcc
      timeBounds := words.timeBounds
      dataLocation := words.dataLocation
      bridgeAddress := (fixedFromStr 20 lg.address).getD Address.zero
      parentChainBlockNumber := numberOrDefault lg.blockNumber
      blockHash := hashOrDefault lg.blockHash
      txHash := hashOrDefault lg.transactionHash
      serialized := [] }

section
variable [Externals]

def deliveredFilter (inbox : EthSequencerInbox) (fromBlock toBlock : Nat) : LogFilter :=
  ⟨.between fromBlock toBlock, [inbox.inboxAddr], [[eventTopic evtSequencerBatchDelivered]]⟩

def lookupBatchesInRange (inbox : EthSequencerInbox) (fromBlock toBlock : Nat) :
    Except (Stop BridgeError) (List BridgeBatch) := do
  let logs ← ofError (inbox.rpc.getLogs (inbox.deliveredFilter fromBlock toBlock))
  collect decodeBatch logs

/-- A sequence number as a topic. -/
def seqNumTopic (seqNum : Nat) : B256 := ⟨List.replicate 24 0 ++ BigEndian.digits 8 seqNum, by simp⟩

def batchDataFilter (inbox : EthSequencerInbox) (blockNumber seqNum : Nat) (blockHash : B256) : LogFilter :=
  ⟨if blockHash ≠ .zero then .hash blockHash else .between blockNumber blockNumber, [inbox.inboxAddr],
    [[eventTopic evtSequencerBatchData], [seqNumTopic seqNum]]⟩

/-- The only log, or the one of the given transaction. -/
def chosenLog (txHash : B256) : List RpcLog → Option RpcLog
  | [] => none
  | [lg] => some lg
  | logs =>
    if txHash ≠ .zero then
      logs.find? fun lg => lg.transactionHash.any fun th => eqIgnoreAsciiCase th (display txHash.val)
    else none

def receiptLog (inbox : EthSequencerInbox) (seqNum : Nat) (logs : List RpcLog) : Option RpcLog :=
  logs.find? fun lg =>
    eqIgnoreAsciiCase lg.address (display inbox.inboxAddr.val) &&
      match lg.topics with
      | topic0 :: topic1 :: _ =>
        eqIgnoreAsciiCase topic0 (display (eventTopic evtSequencerBatchData).val) &&
          eqIgnoreAsciiCase topic1 (display (seqNumTopic seqNum).val)
      | _ => false

/-- The log with the data of a batch. -/
def batchDataLog (inbox : EthSequencerInbox) (blockNumber seqNum : Nat) (txHash blockHash : B256) :
    Except BridgeError RpcLog := do
  let logs ← inbox.rpc.getLogs (inbox.batchDataFilter blockNumber seqNum blockHash)
  match chosenLog txHash logs with
  | some lg => return lg
  | none =>
    if txHash = .zero then .error (.ambiguousBatchData seqNum blockNumber)
    else
      let logs ← inbox.rpc.getTransactionReceipt (display txHash.val)
      match inbox.receiptLog seqNum logs with
      | some lg => return lg
      | none => .error (.noBatchDataInReceipt seqNum txHash)

/-- The data, the hash of its block, and no blocks seen. -/
def getSequencerMessageBytesInBlock (inbox : EthSequencerInbox) (blockNumber seqNum : Nat)
    (txHash blockHash : B256) : Except (Stop BridgeError) (Bytes × B256 × List Nat) := do
  let lg ← ofError (inbox.batchDataLog blockNumber seqNum txHash blockHash)
  let data ← ofError (decodeHex lg.data)
  if data.length < 64 then .error (.error .invalidBatchData)
  else
    match ← ofPanic (bytesBehind data 32) with
    | none => .error (.error .shortBatchData)
    | some bytes => return (bytes, hashOrDefault lg.blockHash, [])

end

end EthSequencerInbox
end NitroRs
