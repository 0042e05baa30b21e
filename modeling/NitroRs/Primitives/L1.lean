import NitroRs.Externals
import NitroRs.Lib.BigEndian
import Mathlib.Data.Nat.Basic

/-! L1 incoming messages, their legacy byte format and the delayed accumulator. -/
namespace NitroRs

/-- The label that an error text gives a delayed entry: none, "legacy" or "new". -/
inductive EntryLabel where
  | plain
  | legacy
  | new
  deriving DecidableEq

/-- The errors of the modelled functions, by the text that the source gives them. -/
inductive Error where
  /-- "not found", from the database -/
  | notFound
  /-- "failed to fill whole buffer", from `Cursor::read_exact` -/
  | unexpectedEof
  /-- "delayed message {label} entry missing accumulator" -/
  | entryMissingAccumulator (label : EntryLabel)
  /-- "accumulator not found: delayed {seqnum}" -/
  | noDelayedAccumulator (seqnum : Nat)
  /-- "accumulator not found: no metadata for batch {seqnum}" -/
  | noBatchMetadata (seqnum : Nat)
  /-- "invalid parent chain block number encoding" -/
  | invalidParentChainBlock
  /-- "cannot serialize without requestId" -/
  | noRequestId
  /-- "sequencer message missing L1 header" -/
  | missingL1Header
  /-- an I/O error of the brotli decompressor -/
  | brotli
  /-- "read past end of specified sequencer batches" -/
  | readPastEnd
  /-- "unexpected batch sequence number {seqnum} expected {expected}" -/
  | unexpectedBatch (seqnum expected : Nat)
  /-- "previous batch accumulator mismatch" -/
  | batchAccumulatorMismatch
  /-- "delayed message accumulator doesn't match sequencer batch" -/
  | delayedAccumulatorMismatch
  /-- "firstNewDelayedMessagePos {first} is after newDelayedCount {count}" -/
  | delayedPositionPastCount (first count : Nat)
  /-- "reorging of sequencer batch number {seqnum} via delayed messages reorg to count {count} disabled" -/
  | batchReorgDisabled (seqnum count : Nat)
  /-- "missing previous delayed message" -/
  | missingPreviousDelayed
  /-- "unexpected delayed sequence number {seqnum}, expected {expected}" -/
  | unexpectedDelayed (seqnum expected : Nat)
  /-- "previous delayed accumulator mismatch for message {seqnum}" -/
  | previousDelayedMismatch (seqnum : Nat)
  /-- "attempted to reorg to future batch count: {cause}" -/
  | reorgToFutureBatch (cause : Error)
  /-- "non-contiguous append: db_count={count} first_msg_idx={first}" -/
  | nonContiguousAppend (count first : Nat)
  /-- "cannot reorg out init message" -/
  | reorgInitMessage
  /-- "attempted to insert jump from {last} delayed messages read to {read} delayed messages read at message index {index}" -/
  | delayedReadJump (last read index : Nat)
  /-- "could not locate dynamic bytes in tx input" -/
  | noDynamicBytes
  /-- "tx input too short for batch data" -/
  | txInputTooShort
  /-- a failed call to an L1 node -/
  | rpc
  /-- a panic: `Ord::clamp` with its bounds in the wrong order -/
  | clampPanic
  /-- a modelled loop that used up its iteration bound -/
  | outOfFuel
  deriving DecidableEq

/-- The guard `e.to_string().contains("not found")`. -/
def Error.isNotFound : Error → Bool
  | .notFound | .noDelayedAccumulator _ | .noBatchMetadata _ => true
  | .reorgToFutureBatch cause => cause.isNotFound
  | _ => false

structure L1IncomingMessageHeader where
  kind : UInt8
  poster : Address
  blockNumber : UInt64
  timestamp : UInt64
  requestId : Option B256
  l1BaseFee : U256
  deriving DecidableEq

structure L1IncomingMessage where
  header : L1IncomingMessageHeader
  l2msg : Bytes
  batchGasCost : Option UInt64
  deriving DecidableEq

def u64Be8 (n : UInt64) : Bytes := BigEndian.digits 8 n.toNat

def U256.toBeBytes (n : U256) : Bytes := BigEndian.digits 32 n.toNat

@[simp] theorem u64Be8_length (n : UInt64) : (u64Be8 n).length = 8 := BigEndian.digits_length _ _

@[simp] theorem toBeBytes_length (n : U256) : (U256.toBeBytes n).length = 32 :=
  BigEndian.digits_length _ _

theorem value_u64Be8 (n : UInt64) : BigEndian.value (u64Be8 n) = n.toNat :=
  BigEndian.value_digits n.toNat_lt

theorem value_toBeBytes (n : U256) : BigEndian.value (U256.toBeBytes n) = n.toNat :=
  BigEndian.value_digits n.isLt

theorem u64Be8_injective {a b : UInt64} (same : u64Be8 a = u64Be8 b) : a = b := by
  rw [← UInt64.toNat_inj, ← value_u64Be8 a, ← value_u64Be8 b, same]

theorem toBeBytes_injective {a b : U256} (same : U256.toBeBytes a = U256.toBeBytes b) : a = b := by
  apply BitVec.eq_of_toNat_eq
  rw [← value_toBeBytes a, ← value_toBeBytes b, same]

def hashAfter [Externals] (prev : B256) (msg : Bytes) : B256 := keccak256 (prev.val ++ msg)

/-- `to_be_bytes_vec` already has 32 bytes, so the source's padding never applies. -/
def delayedMessageBodyHash [Externals] (msg : L1IncomingMessage) : B256 :=
  keccak256 (msg.header.kind :: msg.header.poster.val ++ u64Be8 msg.header.blockNumber ++
    u64Be8 msg.header.timestamp ++ (msg.header.requestId.map Subtype.val).getD [] ++
    U256.toBeBytes msg.header.l1BaseFee ++ (keccak256 msg.l2msg).val)

def readExact (n : Nat) (rdr : Bytes) : Except Error (FixedBytes n × Bytes) :=
  if fits : n ≤ rdr.length then .ok (⟨rdr.take n, by simp [fits]⟩, rdr.drop n)
  else .error .unexpectedEof

def readU64Be (rdr : Bytes) : Except Error (UInt64 × Bytes) := do
  let (bytes, rdr) ← readExact 8 rdr
  return (.ofNat (BigEndian.value bytes.val), rdr)

def parseIncomingL1MessageLegacy (bytes : Bytes) : Except Error L1IncomingMessage := do
  let (kind, rdr) ← readExact 1 bytes
  let (addr32, rdr) ← readExact 32 rdr
  let (blockNumber, rdr) ← readU64Be rdr
  let (timestamp, rdr) ← readU64Be rdr
  let (req, rdr) ← readExact 32 rdr
  let (basefee, rdr) ← readExact 32 rdr
  return {
    header := {
      kind := kind.val.headD 0
      poster := ⟨addr32.val.drop 12, by simp [addr32.property]⟩
      blockNumber
      timestamp
      requestId := some req
      l1BaseFee := .ofNat 256 (BigEndian.value basefee.val) }
    l2msg := rdr
    batchGasCost := none }

def serializeIncomingL1MessageLegacy (msg : L1IncomingMessage) : Except Error Bytes :=
  match msg.header.requestId with
  | none => .error .noRequestId
  | some req => .ok (msg.header.kind :: List.replicate 12 0 ++ msg.header.poster.val ++
      u64Be8 msg.header.blockNumber ++ u64Be8 msg.header.timestamp ++ req.val ++
      U256.toBeBytes msg.header.l1BaseFee ++ msg.l2msg)

end NitroRs
