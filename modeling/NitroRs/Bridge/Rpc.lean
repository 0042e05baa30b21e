import NitroRs.Lib.Checked
import NitroRs.Lib.Hex
import NitroRs.Primitives.L1

/-! What the bridge reads from an L1 node: logs, transactions and receipts. Byte strings and
numbers arrive as hexadecimal texts. -/
namespace NitroRs
open Checked Hex

inductive BridgeError where
  /-- a failed call to the node -/
  | rpc
  /-- an error of `hex::decode` -/
  | hex
  /-- "message {id} data not found" -/
  | dataNotFound (id : Nat)
  /-- "found message {id} data with mismatched hash: expected {expected} got {found}" -/
  | hashMismatch (id : Nat) (expected found : B256)
  /-- "invalid SequencerBatchData encoding" -/
  | invalidBatchData
  /-- "short SequencerBatchData payload" -/
  | shortBatchData
  /-- "no unambiguous SequencerBatchData log for seq {seqNum} at block {block} and no tx_hash provided" -/
  | ambiguousBatchData (seqNum block : Nat)
  /-- "no SequencerBatchData in receipt for seq {seqNum} (tx {txHash})" -/
  | noBatchDataInReceipt (seqNum : Nat) (txHash : B256)
  deriving DecidableEq

structure RpcLog where
  address : Text
  data : Text
  topics : List Text
  blockNumber : Option Text
  blockHash : Option Text
  transactionHash : Option Text

inductive BlockRange where
  | between (fromBlock toBlock : Nat)
  | hash (blockHash : B256)
  deriving DecidableEq

/-- The parameters of `eth_getLogs`. -/
structure LogFilter where
  blocks : BlockRange
  addresses : List Address
  topics : List (List B256)
  deriving DecidableEq

/-- The answers of a node, with the fields that are read. -/
structure RpcClient where
  getLogs : LogFilter → Except BridgeError (List RpcLog)
  /-- the number of a block -/
  getBlockByHash : Text → Except BridgeError Text
  /-- the input of a transaction -/
  getTransactionByHash : Text → Except BridgeError Text
  /-- the logs of a receipt -/
  getTransactionReceipt : Text → Except BridgeError (List RpcLog)

def sigSendL2FromOrigin : String := "sendL2MessageFromOrigin(bytes)"

def evtMessageDelivered : String :=
  "MessageDelivered(uint256,bytes32,address,uint8,address,bytes32,uint256,uint64)"

def evtInboxMessageDelivered : String := "InboxMessageDelivered(uint256,bytes)"

def evtInboxMessageFromOrigin : String := "InboxMessageDeliveredFromOrigin(uint256)"

def evtSequencerBatchDelivered : String :=
  "SequencerBatchDelivered(uint256,bytes32,bytes32,bytes32,uint256,(uint64,uint64,uint64,uint64),uint8)"

def evtSequencerBatchData : String := "SequencerBatchData(uint256,bytes)"

section
variable [Externals]

/-- The hash of a signature, which is an ASCII text. -/
def eventTopic (signature : String) : B256 := keccak256 (signature.toList.map fun c => .ofNat c.toNat)

def encodeSelector (signature : String) : Bytes := (eventTopic signature).val.take 4

end

/-- `hex::decode` behind any number of prefixes. -/
def decodeHex (text : Text) : Except BridgeError Bytes :=
  match decode (trimPrefix text) with
  | some bytes => .ok bytes
  | none => .error .hex

/-- `B256::from_str(..).unwrap_or_default()`. -/
def b256OrDefault (text : Text) : B256 := (fixedFromStr 32 text).getD B256.zero

/-- An optional hash, and no hash where it does not parse. -/
def hashOrDefault (text : Option Text) : B256 := (text.bind (fixedFromStr 32)).getD B256.zero

/-- An optional block number, and 0 where it does not parse. -/
def numberOrDefault (text : Option Text) : Nat := (text.bind fun n => u64FromStrRadix16 (trimPrefix n)).getD 0

/-- The 256-bit word at an offset. -/
def wordAt (data : Bytes) (start : Nat) : Except Panic Nat := do
  let word ← fixedSlice 32 data start
  return BigEndian.value word.val

def u64At (data : Bytes) (start : Nat) : Except Panic Nat := do
  let word ← wordAt data start
  narrow64 word

/-- The bytes behind the length at an offset, when they are all there. -/
def bytesBehind (data : Bytes) (off : Nat) : Except Panic (Option Bytes) := do
  let len ← u64At data off
  let stop ← add64 (off + 32) len
  if data.length < stop then return none
  else
    let bytes ← slice data (off + 32) stop
    return some bytes

/-- The word at an offset fits a `u64`. -/
def FitsU64 (data : Bytes) (start : Nat) : Prop := BigEndian.value ((data.drop start).take 32) < 2 ^ 64

section
variable {data : Bytes} {start off n : Nat}

theorem wordAt_eq_ok : wordAt data start = .ok n ↔
    start + 32 ≤ data.length ∧ n = BigEndian.value ((data.drop start).take 32) := by
  unfold wordAt fixedSlice
  split
  · simp [*, eq_comm]
  · simp [*]

theorem u64At_eq_ok : u64At data start = .ok n ↔
    start + 32 ≤ data.length ∧ FitsU64 data start ∧ n = BigEndian.value ((data.drop start).take 32) := by
  unfold u64At
  constructor
  · intro read
    cases word : wordAt data start with
    | error panic =>
      rw [word] at read
      contradiction
    | ok w =>
      obtain ⟨inside, rfl⟩ := wordAt_eq_ok.mp word
      rw [word, bind_ok, narrow64_eq_ok] at read
      exact ⟨inside, read⟩
  · rintro ⟨inside, small, rfl⟩
    rw [wordAt_eq_ok.mpr ⟨inside, rfl⟩, bind_ok]
    exact narrow64_eq_ok.mpr ⟨small, rfl⟩

theorem wordAt_ok_iff : (∃ n, wordAt data start = .ok n) ↔ start + 32 ≤ data.length := by
  simp only [wordAt_eq_ok, exists_and_left, exists_eq, and_true]

theorem u64At_ok_iff : (∃ n, u64At data start = .ok n) ↔ start + 32 ≤ data.length ∧ FitsU64 data start := by
  simp only [u64At_eq_ok, exists_and_left, exists_eq, and_true]

/-- The place behind the bytes can be counted. -/
def LengthFits (data : Bytes) (off : Nat) : Prop :=
  off + 32 + BigEndian.value ((data.drop off).take 32) < 2 ^ 64

/-- Only a length near the end of the 64-bit range panics. -/
theorem bytesBehind_ok_iff (inside : off + 32 ≤ data.length) :
    (∃ bytes, bytesBehind data off = .ok bytes) ↔ LengthFits data off := by
  unfold LengthFits
  constructor
  · rintro ⟨bytes, ran⟩
    unfold bytesBehind at ran
    cases len : u64At data off with
    | error panic =>
      rw [len] at ran
      contradiction
    | ok n =>
      obtain ⟨_, _, rfl⟩ := u64At_eq_ok.mp len
      rw [len, bind_ok] at ran
      cases stop : add64 (off + 32) (BigEndian.value ((data.drop off).take 32)) with
      | error panic =>
        rw [stop] at ran
        contradiction
      | ok m => exact (add64_eq_ok.mp stop).1
  · intro fits
    have small : FitsU64 data off := by
      unfold FitsU64
      omega
    rw [bytesBehind, u64At_eq_ok.mpr ⟨inside, small, rfl⟩, bind_ok, add64_ok fits, bind_ok]
    split
    · exact ⟨_, rfl⟩
    · rename_i whole
      rw [slice_ok (Nat.le_add_right _ _) (not_lt.mp whole)]
      exact ⟨_, rfl⟩

end
end NitroRs
