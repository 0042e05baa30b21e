import NitroRs.Bridge.Rpc
import NitroRs.Reader.InboxReader

/-! The delayed bridge over an L1 node: the messages of a range of blocks, joined with their
contents from other logs and transactions. -/
namespace NitroRs
open Checked Hex

/-- A message as the bridge returns it, with what its callers do not read. -/
structure BridgeMessage extends DelayedInboxMessage where
  blockHash : B256
  parentChainBlockNumber : Nat

/-- What a `MessageDelivered` log says: the message without its contents, where these are
logged, and their hash. -/
structure Delivered where
  message : BridgeMessage
  inboxAddr : Address
  id : B256
  messageDataHash : B256

structure EthDelayedBridge where
  rpc : RpcClient
  bridgeAddr : Address

namespace EthDelayedBridge

/-- Without a block hash the number of the log stands in. -/
def l1BlockNumber (rpc : RpcClient) (lg : RpcLog) : Except BridgeError Nat :=
  match lg.blockHash with
  | some blockHash => do
    let number ← rpc.getBlockByHash blockHash
    return numberOrDefault (some number)
  | none => return numberOrDefault lg.blockNumber

/-- One `MessageDelivered` log; `none` skips it. -/
def decodeDelivered (rpc : RpcClient) (lg : RpcLog) : Except (Stop BridgeError) (Option Delivered) := do
  let data ← ofError (decodeHex lg.data)
  if lg.topics.length < 2 ∨ data.length < 32 * 5 then return none
  else
    let topic ← ofPanic (index lg.topics 1)
    let id := b256OrDefault topic
    let seqNum ← ofPanic (narrow64 (BigEndian.value id.val))
    let topic ← ofPanic (index lg.topics 2)
    let beforeInboxAcc := b256OrDefault topic
    let inboxAddr ← ofPanic (fixedSlice 20 data 12)
    let kind ← ofPanic (u64At data 32)
    let poster ← ofPanic (fixedSlice 20 data (64 + 12))
    let messageDataHash ← ofPanic (fixedSlice 32 data 96)
    let basefee ← ofPanic (wordAt data 128)
    let timestamp ← ofPanic (u64At data 160)
    let blockNumber ← ofError (l1BlockNumber rpc lg)
    let header := {
      kind := if kind < 256 then .ofNat kind else 0
      poster
      blockNumber := .ofNat blockNumber
      timestamp := .ofNat timestamp
      requestId := some id
      l1BaseFee := .ofNat 256 basefee }
    let message := {
      seqNum
      beforeInboxAcc
      message := { header, l2msg := [], batchGasCost := none }
      blockHash := hashOrDefault lg.blockHash
      parentChainBlockNumber := numberOrDefault lg.blockNumber }
    return some { message, inboxAddr, id, messageDataHash }

section
variable [Externals]

/-- The contents in the input of a `sendL2MessageFromOrigin` call. -/
def originContents (input : Bytes) : Except Panic (Option Bytes) :=
  if 4 + 32 ≤ input.length ∧ input.take 4 = encodeSelector sigSendL2FromOrigin ∧ 4 + 64 ≤ input.length then
    bytesBehind input (4 + 32)
  else return none

/-- One log of an inbox: the contents of a message, or `none`. -/
def decodeInboxLog (rpc : RpcClient) (lg : RpcLog) : Except (Stop BridgeError) (Option (B256 × Bytes)) :=
  match lg.topics with
  | topic0 :: topic1 :: _ => do
    let id := b256OrDefault topic1
    let data ← ofError (decodeHex lg.data)
    if b256OrDefault topic0 = eventTopic evtInboxMessageDelivered then
      if 64 ≤ data.length then
        let bytes ← ofPanic (bytesBehind data 32)
        return bytes.map (id, ·)
      else return none
    else if b256OrDefault topic0 = eventTopic evtInboxMessageFromOrigin then
      match lg.transactionHash with
      | some txHash =>
        let input ← ofError (rpc.getTransactionByHash txHash)
        let input ← ofError (decodeHex input)
        let bytes ← ofPanic (originContents input)
        return bytes.map (id, ·)
      | none => return none
    else return none
  | _ => return none

/-- The last contents that were logged for a message. -/
def dataById (logged : List (B256 × Bytes)) (id : B256) : Option Bytes := logged.reverse.lookup id

/-- Fill in the contents, against their hash. -/
def join (logged : List (B256 × Bytes)) : List Delivered → Except BridgeError (List BridgeMessage)
  | [] => .ok []
  | d :: later =>
    match dataById logged d.id with
    | none => .error (.dataNotFound (BigEndian.value d.id.val))
    | some data =>
      if keccak256 data ≠ d.messageDataHash then
        .error (.hashMismatch (BigEndian.value d.id.val) d.messageDataHash (keccak256 data))
      else do
        let out ← join logged later
        return { d.message with message := { d.message.message with l2msg := data } } :: out

end

/-- A `BTreeSet` of addresses: in order, each once. -/
def insertAddress (a : Address) : List Address → List Address
  | [] => [a]
  | b :: later =>
    if BigEndian.value a.val < BigEndian.value b.val then a :: b :: later
    else if a = b then b :: later
    else b :: insertAddress a later

section
variable [Externals]

def deliveredFilter (bridge : EthDelayedBridge) (fromBlock toBlock : Nat) : LogFilter :=
  ⟨.between fromBlock toBlock, [bridge.bridgeAddr], [[eventTopic evtMessageDelivered]]⟩

/-- The inbox logs of the messages: the set of inboxes is not empty when there are messages. -/
def inboxFilter (fromBlock toBlock : Nat) (parsed : List Delivered) : LogFilter :=
  ⟨.between fromBlock toBlock, parsed.foldl (fun set d => insertAddress d.inboxAddr set) [],
    [[eventTopic evtInboxMessageDelivered, eventTopic evtInboxMessageFromOrigin], parsed.map (·.id)]⟩

/-- `sort_by_key` is stable, and so is insertion. -/
def sortMessages (messages : List BridgeMessage) : List BridgeMessage :=
  messages.insertionSort (fun a b => a.seqNum ≤ b.seqNum)

def lookupMessagesInRange (bridge : EthDelayedBridge) (fromBlock toBlock : Nat) :
    Except (Stop BridgeError) (List BridgeMessage) := do
  let logs ← ofError (bridge.rpc.getLogs (bridge.deliveredFilter fromBlock toBlock))
  let parsed ← collect (decodeDelivered bridge.rpc) logs
  if parsed.isEmpty then return []
  else
    let inboxLogs ← ofError (bridge.rpc.getLogs (inboxFilter fromBlock toBlock parsed))
    let logged ← collect (decodeInboxLog bridge.rpc) inboxLogs
    let out ← ofError (join logged parsed)
    return sortMessages out

end

end EthDelayedBridge
end NitroRs
