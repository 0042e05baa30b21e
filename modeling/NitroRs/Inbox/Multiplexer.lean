import NitroRs.Inbox.SequencerMessage

/-! The inbox multiplexer: it turns sequencer batches and the delayed inbox into
one stream of messages, one message for each `pop`. -/
namespace NitroRs

def batchSegmentKindL2Message : UInt8 := 0
def batchSegmentKindL2MessageBrotli : UInt8 := 1
def batchSegmentKindDelayedMessages : UInt8 := 2
def batchSegmentKindAdvanceTimestamp : UInt8 := 3
def batchSegmentKindAdvanceL1BlockNumber : UInt8 := 4

theorem known_kind {kind : UInt8} (known : kind ≤ batchSegmentKindAdvanceL1BlockNumber) :
    kind = batchSegmentKindL2Message ∨ kind = batchSegmentKindL2MessageBrotli ∨
      kind = batchSegmentKindDelayedMessages ∨ kind = batchSegmentKindAdvanceTimestamp ∨
      kind = batchSegmentKindAdvanceL1BlockNumber := by
  have small : kind.toNat ≤ 4 := UInt8.le_iff_toNat_le.mp known
  simp only [← UInt8.toNat_inj]
  change kind.toNat = 0 ∨ kind.toNat = 1 ∨ kind.toNat = 2 ∨ kind.toNat = 3 ∨ kind.toNat = 4
  omega

/-- The kind of a placeholder message. -/
def invalidMessageKind : UInt8 := 0xff

/-- `TrackerBackend`: a window of batches, the position in it, and the delayed inbox. -/
structure InboxBackend where
  batches : List SequencerInboxBatch
  batchIdx : Nat
  posWithin : Nat
  readDelayedInbox : Nat → Except Error L1IncomingMessage

namespace InboxBackend

def currentBatch (b : InboxBackend) : Option SequencerInboxBatch := b.batches[b.batchIdx]?

def peekSequencerInbox (b : InboxBackend) : Except Error (Bytes × Option B256) :=
  match b.currentBatch with
  | some batch => .ok (batch.serialized, some batch.blockHash)
  | none => .error .readPastEnd

def advanceSequencerInbox (b : InboxBackend) : InboxBackend :=
  if b.batchIdx < b.batches.length then { b with batchIdx := b.batchIdx + 1 } else b

def setPositionWithinMessage (b : InboxBackend) (pos : Nat) : InboxBackend :=
  { b with posWithin := pos }

end InboxBackend

structure InboxMultiplexer where
  backend : InboxBackend
  delayedMessagesRead : Nat
  cachedMsg : Option SequencerMessage
  cachedBatchHash : Option B256
  cachedSegmentNum : Nat
  cachedSegmentTimestamp : UInt64
  cachedSegmentBlockNumber : UInt64
  cachedSubmessageNumber : Nat

/-- `u64::saturating_add`. -/
def saturatingAdd (a b : UInt64) : UInt64 :=
  if a.toNat + b.toNat < 2 ^ 64 then a + b else .ofNat (2 ^ 64 - 1)

theorem toNat_saturatingAdd (a b : UInt64) :
    (saturatingAdd a b).toNat = min (a.toNat + b.toNat) (2 ^ 64 - 1) := by
  unfold saturatingAdd
  split
  · rename_i small
    rw [UInt64.toNat_add, Nat.mod_eq_of_lt small]
    omega
  · change 2 ^ 64 - 1 = _
    omega

/-- `Ord::clamp`, which panics when its bounds are in the wrong order. -/
def clamp (x lo hi : UInt64) : Except Error UInt64 :=
  if lo ≤ hi then .ok (if x < lo then lo else if hi < x then hi else x) else .error .clampPanic

/-- The segment cursor that `get_next_msg` moves over the cached message. -/
structure SegmentCursor where
  segmentNum : Nat
  timestamp : UInt64
  blockNumber : UInt64
  submessageNumber : Nat

/-- What an advance segment adds; an undecodable one adds nothing. -/
def advanceBy [Externals] (base : UInt64) (body : Bytes) : UInt64 :=
  match rlpDecodeU64 body with
  | some (v, _) => saturatingAdd base v
  | none => base

/-- The `while` loop of `get_next_msg`, on the segments from the cursor on. -/
def scanSegments [Externals] (target : Nat) : List Bytes → SegmentCursor → SegmentCursor
  | [], cur => cur
  | [] :: rest, cur => scanSegments target rest { cur with segmentNum := cur.segmentNum + 1 }
  | (kind :: body) :: rest, cur =>
      if kind = batchSegmentKindAdvanceTimestamp then
        scanSegments target rest { cur with
          segmentNum := cur.segmentNum + 1, timestamp := advanceBy cur.timestamp body }
      else if kind = batchSegmentKindAdvanceL1BlockNumber then
        scanSegments target rest { cur with
          segmentNum := cur.segmentNum + 1, blockNumber := advanceBy cur.blockNumber body }
      else if cur.submessageNumber < target then
        scanSegments target rest { cur with
          segmentNum := cur.segmentNum + 1, submessageNumber := cur.submessageNumber + 1 }
      else cur

/-- The message that stands in for input without a message of its own. -/
def invalidMessage (seq : SequencerMessage) : L1IncomingMessage where
  header := ⟨invalidMessageKind, .zero, seq.maxL1Block, seq.maxTimestamp, none, 0⟩
  l2msg := []
  batchGasCost := none

/-- A segment that makes the look-ahead keep the batch open. -/
def keepsOpen : Bytes → Bool
  | [] => false
  | kind :: _ => kind = batchSegmentKindL2Message || kind = batchSegmentKindL2MessageBrotli ||
      kind = batchSegmentKindDelayedMessages

/-- The last part of `get_next_msg`: the result for one segment and the delayed
count after it. The outer failure is a panic, the inner one an error result. -/
def segmentMessage [Externals] (seq : SequencerMessage) (hash : Option B256)
    (readDelayedInbox : Nat → Except Error L1IncomingMessage) (timestamp blockNumber : UInt64)
    (read : Nat) : Bytes → Except Error (Except Error (Option MessageWithMetadataAndBlockInfo) × Nat)
  | [] => .ok (.ok none, read)
  | kind :: rest =>
    if kind = batchSegmentKindL2Message ∨ kind = batchSegmentKindL2MessageBrotli then
      match if kind = batchSegmentKindL2MessageBrotli then brotliDecompress rest else some rest with
      | none => .ok (.error .brotli, read)
      | some payload => do
        let blockNumber ← clamp blockNumber seq.minL1Block seq.maxL1Block
        let timestamp ← clamp timestamp seq.minTimestamp seq.maxTimestamp
        let message := ⟨⟨3, .zero, blockNumber, timestamp, none, 0⟩, payload, none⟩
        return (.ok (some ⟨⟨message, read⟩, hash, none⟩), read)
    else if kind = batchSegmentKindDelayedMessages then
      if seq.afterDelayedMessages ≤ read then
        .ok (.ok (some ⟨⟨invalidMessage seq, seq.afterDelayedMessages⟩, hash, none⟩), read)
      else
        match readDelayedInbox read with
        | .error e => .ok (.error e, read)
        | .ok delayed => .ok (.ok (some ⟨⟨delayed, read + 1⟩, none, none⟩), read + 1)
    else .ok (.ok none, read)

/-- A value brought into an interval. -/
def clamped (x lo hi : UInt64) : UInt64 := if x < lo then lo else if hi < x then hi else x

theorem clamp_of_le {x lo hi : UInt64} (ordered : lo ≤ hi) : clamp x lo hi = .ok (clamped x lo hi) := by
  simp only [clamp, if_pos ordered, clamped]

/-- Header bounds that `Ord::clamp` accepts. -/
structure BoundsOrdered (seq : SequencerMessage) : Prop where
  timestamps : seq.minTimestamp ≤ seq.maxTimestamp
  blocks : seq.minL1Block ≤ seq.maxL1Block

/-- The payload of an L2 segment, unless it does not decompress. -/
def l2Payload [Externals] (kind : UInt8) (body : Bytes) : Option Bytes :=
  if kind = batchSegmentKindL2MessageBrotli then brotliDecompress body else some body

def l2Message (seq : SequencerMessage) (timestamp blockNumber : UInt64) (payload : Bytes) :
    L1IncomingMessage :=
  ⟨⟨3, .zero, clamped blockNumber seq.minL1Block seq.maxL1Block,
    clamped timestamp seq.minTimestamp seq.maxTimestamp, none, 0⟩, payload, none⟩

section
variable [Externals] (seq : SequencerMessage) (hash : Option B256)
  (readDelayedInbox : Nat → Except Error L1IncomingMessage) (timestamp blockNumber : UInt64)
  (read : Nat) {kind : UInt8} (body : Bytes)

theorem segmentMessage_l2 (ordered : BoundsOrdered seq)
    (isL2 : kind = batchSegmentKindL2Message ∨ kind = batchSegmentKindL2MessageBrotli) :
    segmentMessage seq hash readDelayedInbox timestamp blockNumber read (kind :: body) =
      match l2Payload kind body with
      | none => .ok (.error .brotli, read)
      | some payload =>
        .ok (.ok (some ⟨⟨l2Message seq timestamp blockNumber payload, read⟩, hash, none⟩), read) := by
  simp only [segmentMessage, if_pos isL2, l2Payload, clamp_of_le ordered.timestamps,
    clamp_of_le ordered.blocks]
  rfl

theorem segmentMessage_delayed :
    segmentMessage seq hash readDelayedInbox timestamp blockNumber read
        (batchSegmentKindDelayedMessages :: body) =
      if seq.afterDelayedMessages ≤ read then
        .ok (.ok (some ⟨⟨invalidMessage seq, seq.afterDelayedMessages⟩, hash, none⟩), read)
      else
        match readDelayedInbox read with
        | .error e => .ok (.error e, read)
        | .ok delayed => .ok (.ok (some ⟨⟨delayed, read + 1⟩, none, none⟩), read + 1) := rfl

theorem segmentMessage_unknown (unknown : batchSegmentKindAdvanceL1BlockNumber < kind) :
    segmentMessage seq hash readDelayedInbox timestamp blockNumber read (kind :: body) =
      .ok (.ok none, read) := by
  have apart (known : UInt8) (low : known ≤ batchSegmentKindAdvanceL1BlockNumber) : kind ≠ known := by
    rintro rfl
    exact absurd unknown (UInt8.not_lt.mpr low)
  rw [segmentMessage, if_neg (not_or.mpr ⟨apart _ (by decide), apart _ (by decide)⟩),
    if_neg (apart _ (by decide))]

end

namespace InboxMultiplexer

def new (backend : InboxBackend) (delayedMessagesRead : Nat) : InboxMultiplexer :=
  ⟨backend, delayedMessagesRead, none, none, 0, 0, 0, 0⟩

def advanceSeqMsg (mux : InboxMultiplexer) : InboxMultiplexer where
  backend := (mux.backend.setPositionWithinMessage 0).advanceSequencerInbox
  delayedMessagesRead := (mux.cachedMsg.map (·.afterDelayedMessages)).getD mux.delayedMessagesRead
  cachedMsg := none
  cachedBatchHash := none
  cachedSegmentNum := 0
  cachedSegmentTimestamp := 0
  cachedSegmentBlockNumber := 0
  cachedSubmessageNumber := 0

def advanceSubmsg (mux : InboxMultiplexer) : InboxMultiplexer :=
  { mux with backend := mux.backend.setPositionWithinMessage (mux.backend.posWithin + 1) }

def isCachedSegmentLast (mux : InboxMultiplexer) : Bool :=
  match mux.cachedMsg with
  | none => true
  | some seq =>
      !(mux.delayedMessagesRead < seq.afterDelayedMessages) &&
        !((seq.segments.drop (mux.cachedSegmentNum + 1)).any keepsOpen)

def getNextMsg [Externals] (mux : InboxMultiplexer) :
    EStateM.Result Error InboxMultiplexer
      (Except Error (Option MessageWithMetadataAndBlockInfo)) :=
  match mux.cachedMsg with
  | none => .ok (.ok none) mux
  | some seq =>
    let cur := scanSegments mux.backend.posWithin (seq.segments.drop mux.cachedSegmentNum)
      ⟨mux.cachedSegmentNum, mux.cachedSegmentTimestamp, mux.cachedSegmentBlockNumber,
        mux.cachedSubmessageNumber⟩
    let mux := { mux with
      cachedSegmentNum := cur.segmentNum
      cachedSegmentTimestamp := cur.timestamp
      cachedSegmentBlockNumber := cur.blockNumber
      cachedSubmessageNumber := cur.submessageNumber }
    -- past the last segment the source reads a virtual delayed segment
    let seg := (seq.segments[cur.segmentNum]?).getD [batchSegmentKindDelayedMessages]
    match segmentMessage seq mux.cachedBatchHash mux.backend.readDelayedInbox
      cur.timestamp cur.blockNumber mux.delayedMessagesRead seg with
    | .error panic => .error panic mux
    | .ok (result, read) => .ok result { mux with delayedMessagesRead := read }

/-- The first part of `pop`: parse the current batch unless one is cached.
`none` is the source's `Ok(None)` at the end of the backend. -/
def loadMsg [Externals] (mux : InboxMultiplexer) :
    EStateM.Result Error InboxMultiplexer (Option SequencerMessage) :=
  match mux.cachedMsg with
  | some seq => .ok (some seq) mux
  | none =>
    match mux.backend.peekSequencerInbox with
    | .error _ => .ok none mux
    | .ok (bytes, hash) =>
      match parseSequencerMessage bytes with
      | .error e => .error e mux
      | .ok parsed => .ok (some parsed) { mux with cachedBatchHash := hash, cachedMsg := some parsed }

def advance (mux : InboxMultiplexer) : InboxMultiplexer :=
  if mux.isCachedSegmentLast then mux.advanceSeqMsg else mux.advanceSubmsg

def pop [Externals] (mux : InboxMultiplexer) :
    EStateM.Result Error InboxMultiplexer (Option MessageWithMetadataAndBlockInfo) :=
  match mux.loadMsg with
  | .error e mux => .error e mux
  | .ok none mux => .ok none mux
  | .ok (some _) mux =>
    match mux.getNextMsg with
    | .error panic mux => .error panic mux
    | .ok (.error e) mux => .error e mux.advance
    | .ok (.ok msg) mux => .ok msg mux.advance

/-- The drain loop of `add_sequencer_batches_and_stream`. -/
def drain [Externals] : Nat → InboxMultiplexer → Except Error (List MessageWithMetadataAndBlockInfo)
  | 0, _ => .error .outOfFuel
  | fuel + 1, mux =>
    match mux.pop with
    | .error e _ => .error e
    | .ok none _ => .ok []
    | .ok (some m) mux => do
      let out ← drain fuel mux
      return m :: out

end InboxMultiplexer
end NitroRs
