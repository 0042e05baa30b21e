import NitroRs.Inbox.MessageCount
import NitroRs.Inbox.Resume
import NitroRs.Lib.Checked

/-! The panics of `pop`. Every index, slice, addition and clamp of the multiplexer is
checked here; where none of them panics, the result is the one of the model above. -/
namespace NitroRs
open Checked

namespace Panics
variable [Externals]

/-- The closure `u64be`: the word at an offset, and the offset behind it. -/
def u64be (d : Bytes) (o : Nat) : Except Panic (Nat × Nat) := do
  let stop ← add64 o 8
  let word ← slice d o stop
  let o ← add64 o 8
  return (BigEndian.value word, o)

/-- The payload part of `parse_sequencer_message`. -/
def parsePayload (payload : Bytes) : Except Panic (Except Error (List Bytes)) :=
  if payload.isEmpty then return .ok []
  else do
    let first ← index payload 0
    if first = 0x01 then
      let compressed ← slice payload 1 payload.length
      match brotliDecompress compressed with
      | some decompressed => return .ok (decodeSegments (segmentCap + 1) decompressed)
      | none => return .error .brotli
    else return .ok (decodeSegments (segmentCap + 1) payload)

def parseSequencerMessage (data : Bytes) : Except Panic (Except Error SequencerMessage) :=
  if data.length < 40 then return .error .missingL1Header
  else do
    let (minTimestamp, off) ← u64be data 0
    let (maxTimestamp, off) ← u64be data off
    let (minL1Block, off) ← u64be data off
    let (maxL1Block, off) ← u64be data off
    let (afterDelayedMessages, off) ← u64be data off
    let payload ← slice data off data.length
    let segments ← parsePayload payload
    return segments.map fun segments => {
      minTimestamp := .ofNat minTimestamp
      maxTimestamp := .ofNat maxTimestamp
      minL1Block := .ofNat minL1Block
      maxL1Block := .ofNat maxL1Block
      afterDelayedMessages
      segments }

/-- One iteration of the `while` loop of `get_next_msg`; `none` leaves it. -/
def scanStep (target : Nat) (segments : List Bytes) (cur : SegmentCursor) :
    Except Panic (Option SegmentCursor) :=
  if cur.segmentNum < segments.length then do
    let seg ← index segments cur.segmentNum
    if seg.isEmpty then
      let segmentNum ← add64 cur.segmentNum 1
      return some { cur with segmentNum }
    else
      let kind ← index seg 0
      if kind = batchSegmentKindAdvanceTimestamp ∨ kind = batchSegmentKindAdvanceL1BlockNumber then
        let body ← slice seg 1 seg.length
        let segmentNum ← add64 cur.segmentNum 1
        if kind = batchSegmentKindAdvanceTimestamp then
          return some { cur with segmentNum, timestamp := advanceBy cur.timestamp body }
        else return some { cur with segmentNum, blockNumber := advanceBy cur.blockNumber body }
      else if cur.submessageNumber < target then
        let segmentNum ← add64 cur.segmentNum 1
        let submessageNumber ← add64 cur.submessageNumber 1
        return some { cur with segmentNum, submessageNumber }
      else return none
  else return none

/-- The loop, with an iteration bound: each iteration but the last takes a segment. -/
def scanSegments (target : Nat) (segments : List Bytes) : Nat → SegmentCursor → Except Panic SegmentCursor
  | 0, cur => .ok cur
  | fuel + 1, cur => do
    match ← scanStep target segments cur with
    | none => return cur
    | some next => scanSegments target segments fuel next

def segmentMessage (seq : SequencerMessage) (hash : Option B256)
    (readDelayedInbox : Nat → Except Error L1IncomingMessage) (timestamp blockNumber : UInt64)
    (read : Nat) (seg : Bytes) :
    Except Panic (Except Error (Option MessageWithMetadataAndBlockInfo) × Nat) :=
  if seg.isEmpty then return (.ok none, read)
  else do
    let kind ← index seg 0
    let rest ← slice seg 1 seg.length
    if kind = batchSegmentKindL2Message ∨ kind = batchSegmentKindL2MessageBrotli then
      match if kind = batchSegmentKindL2MessageBrotli then brotliDecompress rest else some rest with
      | none => return (.error .brotli, read)
      | some payload =>
        let blockNumber ← Checked.clamp blockNumber seq.minL1Block seq.maxL1Block
        let timestamp ← Checked.clamp timestamp seq.minTimestamp seq.maxTimestamp
        let message := ⟨⟨3, .zero, blockNumber, timestamp, none, 0⟩, payload, none⟩
        return (.ok (some ⟨⟨message, read⟩, hash, none⟩), read)
    else if kind = batchSegmentKindDelayedMessages then
      if seq.afterDelayedMessages ≤ read then
        return (.ok (some ⟨⟨invalidMessage seq, seq.afterDelayedMessages⟩, hash, none⟩), read)
      else
        match readDelayedInbox read with
        | .error e => return (.error e, read)
        | .ok delayed =>
          let read ← add64 read 1
          return (.ok (some ⟨⟨delayed, read⟩, none, none⟩), read)
    else return (.ok none, read)

def getNextMsg (mux : InboxMultiplexer) :
    Except Panic (Except Error (Option MessageWithMetadataAndBlockInfo) × InboxMultiplexer) :=
  match mux.cachedMsg with
  | none => return (.ok none, mux)
  | some seq => do
    let cur ← scanSegments mux.backend.posWithin seq.segments seq.segments.length mux.cursor
    let seg ← if cur.segmentNum < seq.segments.length then index seq.segments cur.segmentNum
      else pure [batchSegmentKindDelayedMessages]
    let (result, read) ← segmentMessage seq mux.cachedBatchHash mux.backend.readDelayedInbox
      cur.timestamp cur.blockNumber mux.delayedMessagesRead seg
    return (result, { mux with
      delayedMessagesRead := read
      cachedSegmentNum := cur.segmentNum
      cachedSegmentTimestamp := cur.timestamp
      cachedSegmentBlockNumber := cur.blockNumber
      cachedSubmessageNumber := cur.submessageNumber })

/-- The look-ahead loop of `is_cached_segment_last`. -/
def noneKeepsOpen : List Bytes → Except Panic Bool
  | [] => return true
  | seg :: rest =>
    if seg.isEmpty then noneKeepsOpen rest
    else do
      let kind ← index seg 0
      if kind = batchSegmentKindL2Message ∨ kind = batchSegmentKindL2MessageBrotli then return false
      else if kind = batchSegmentKindDelayedMessages then return false
      else noneKeepsOpen rest

def isCachedSegmentLast (mux : InboxMultiplexer) : Except Panic Bool :=
  match mux.cachedMsg with
  | none => return true
  | some seq =>
    if mux.delayedMessagesRead < seq.afterDelayedMessages then return false
    else do
      let behind ← add64 mux.cachedSegmentNum 1
      noneKeepsOpen (seq.segments.drop behind)

/-- The index of the batch grows only below the length of a slice. -/
def advance (mux : InboxMultiplexer) : Except Panic InboxMultiplexer := do
  if ← isCachedSegmentLast mux then return mux.advanceSeqMsg
  else
    let pos ← add64 mux.backend.posWithin 1
    return { mux with backend := mux.backend.setPositionWithinMessage pos }

def loadMsg (mux : InboxMultiplexer) :
    Except Panic (EStateM.Result Error InboxMultiplexer (Option SequencerMessage)) :=
  match mux.cachedMsg with
  | some seq => return .ok (some seq) mux
  | none =>
    match mux.backend.peekSequencerInbox with
    | .error _ => return .ok none mux
    | .ok (bytes, hash) => do
      match ← parseSequencerMessage bytes with
      | .error e => return .error e mux
      | .ok parsed =>
        return .ok (some parsed) { mux with cachedBatchHash := hash, cachedMsg := some parsed }

/-- `pop` behind its first part. -/
def popLoaded (mux : InboxMultiplexer) : Except Panic
    (EStateM.Result Error InboxMultiplexer (Option MessageWithMetadataAndBlockInfo)) := do
  let (result, mux) ← getNextMsg mux
  let mux ← advance mux
  match result with
  | .error e => return .error e mux
  | .ok msg => return .ok msg mux

def pop (mux : InboxMultiplexer) : Except Panic
    (EStateM.Result Error InboxMultiplexer (Option MessageWithMetadataAndBlockInfo)) := do
  match ← loadMsg mux with
  | .error e mux => return .error e mux
  | .ok none mux => return .ok none mux
  | .ok (some _) mux => popLoaded mux

/-! Where nothing panics, each function is its counterpart of the model. -/

omit [Externals] in
theorem u64be_ok {d : Bytes} {o : Nat} (inside : o + 8 ≤ d.length) (small : o + 8 < 2 ^ 64) :
    u64be d o = .ok (u64beAt d o, o + 8) := by
  have width : o + 8 - o = 8 := by omega
  simp only [u64be, add64_ok small, slice_ok (Nat.le_add_right o 8) inside, width, Checked.bind_ok]
  rfl

theorem parsePayload_ok (payload : Bytes) : parsePayload payload = .ok (parseSegments payload) := by
  cases payload with
  | nil => rfl
  | cons first rest =>
    have head : index (first :: rest) 0 = .ok first := index_ok rfl
    have tail : slice (first :: rest) 1 (first :: rest).length = .ok rest :=
      slice_length (show 1 ≤ (first :: rest).length by simp)
    simp only [parsePayload, parseSegments, head, tail, Checked.bind_ok, List.isEmpty_cons,
      Bool.false_eq_true, if_false]
    split
    · cases brotliDecompress rest <;> rfl
    · rfl

/-- The header has five words, and its length is checked first. -/
theorem parseSequencerMessage_ok (data : Bytes) :
    parseSequencerMessage data = .ok (NitroRs.parseSequencerMessage data) := by
  unfold parseSequencerMessage NitroRs.parseSequencerMessage
  split
  · rfl
  · rename_i long
    have word {o : Nat} (low : o ≤ 32) : u64be data o = .ok (u64beAt data o, o + 8) :=
      u64be_ok (by omega) (by omega)
    have payload : slice data 40 data.length = .ok (data.drop 40) := slice_length (by omega)
    simp only [word, payload, parsePayload_ok, Checked.bind_ok, Nat.reduceAdd, Nat.reduceLeDiff]
    cases parseSegments (data.drop 40) <;> rfl

theorem scanStep_ok {target : Nat} {segments : List Bytes} {cur : SegmentCursor} {seg : Bytes}
    (here : segments[cur.segmentNum]? = some seg) (few : segments.length < 2 ^ 64)
    (small : target < 2 ^ 64) : scanStep target segments cur =
      if isSubmessage seg = true ∧ target ≤ cur.submessageNumber then .ok none
      else .ok (some (cur.behind seg)) := by
  have more := (List.getElem?_eq_some_iff.mp here).1
  have next : add64 cur.segmentNum 1 = .ok (cur.segmentNum + 1) := add64_ok (by omega)
  cases seg with
  | nil =>
    simp only [scanStep, if_pos more, index_ok here, Checked.bind_ok, List.isEmpty_nil, if_true, next]
    rfl
  | cons kind body =>
    have head : index (kind :: body) 0 = .ok kind := index_ok rfl
    have tail : slice (kind :: body) 1 (kind :: body).length = .ok body :=
      slice_length (show 1 ≤ (kind :: body).length by simp)
    simp only [scanStep, if_pos more, index_ok here, head, tail, next, Checked.bind_ok,
      List.isEmpty_cons, Bool.false_eq_true, if_false, SegmentCursor.behind]
    by_cases isTimestamp : kind = batchSegmentKindAdvanceTimestamp
    · rw [if_pos (.inl isTimestamp), if_pos isTimestamp, if_pos isTimestamp,
        if_neg (by simp [isSubmessage, isTimestamp])]
      rfl
    · by_cases isBlock : kind = batchSegmentKindAdvanceL1BlockNumber
      · rw [if_pos (.inr isBlock), if_neg isTimestamp, if_neg isTimestamp, if_pos isBlock,
          if_neg (by simp [isSubmessage, isBlock])]
        rfl
      · have submessage : isSubmessage (kind :: body) = true := by simp [isSubmessage, isTimestamp, isBlock]
        rw [if_neg (not_or.mpr ⟨isTimestamp, isBlock⟩), if_neg isTimestamp, if_neg isBlock]
        by_cases before : cur.submessageNumber < target
        · rw [if_pos before, if_neg (by omega), add64_ok (by omega)]
          rfl
        · rw [if_neg before, if_pos ⟨submessage, not_lt.mp before⟩]
          rfl

/-- The loop stops at the last segment, so no number grows past the segments. -/
theorem scanSegments_ok {target : Nat} {segments : List Bytes} (few : segments.length < 2 ^ 64)
    (small : target < 2 ^ 64) {fuel : Nat} {cur : SegmentCursor}
    (enough : segments.length ≤ cur.segmentNum + fuel) : scanSegments target segments fuel cur =
      .ok (NitroRs.scanSegments target (segments.drop cur.segmentNum) cur) := by
  induction fuel generalizing cur with
  | zero =>
    rw [List.drop_of_length_le (show segments.length ≤ cur.segmentNum by omega)]
    rfl
  | succ fuel ih =>
    rw [scanSegments]
    by_cases more : cur.segmentNum < segments.length
    · rw [scanStep_ok (List.getElem?_eq_getElem more) few small, List.drop_eq_getElem_cons more,
        scanSegments_cons]
      by_cases stops : isSubmessage segments[cur.segmentNum] = true ∧ target ≤ cur.submessageNumber
      · rw [if_pos stops, if_pos stops]
        rfl
      · rw [if_neg stops, if_neg stops, Checked.bind_ok]
        have moved := cur.behind_segmentNum segments[cur.segmentNum]
        have later := @ih (cur.behind segments[cur.segmentNum]) (by omega)
        rwa [moved] at later
    · rw [List.drop_of_length_le (by omega), scanStep, if_neg more]
      rfl

omit [Externals] in
theorem noneKeepsOpen_ok (segs : List Bytes) : noneKeepsOpen segs = .ok !(segs.any keepsOpen) := by
  induction segs with
  | nil => rfl
  | cons seg rest ih =>
    cases seg with
    | nil => exact ih
    | cons kind body =>
      have head : index (kind :: body) 0 = .ok kind := index_ok rfl
      simp only [noneKeepsOpen, head, Checked.bind_ok, List.isEmpty_cons, Bool.false_eq_true, if_false,
        List.any_cons, keepsOpen]
      by_cases isL2 : kind = batchSegmentKindL2Message ∨ kind = batchSegmentKindL2MessageBrotli
      · rw [if_pos isL2]
        rcases isL2 with rfl | rfl <;> rfl
      · obtain ⟨notPlain, notBrotli⟩ := not_or.mp isL2
        rw [if_neg isL2, decide_eq_false notPlain, decide_eq_false notBrotli]
        by_cases isDelayed : kind = batchSegmentKindDelayedMessages
        · rw [if_pos isDelayed, decide_eq_true isDelayed]
          rfl
        · rw [if_neg isDelayed, decide_eq_false isDelayed, ih]
          rfl

section Segment
variable (seq : SequencerMessage) (hash : Option B256)
  (readDelayedInbox : Nat → Except Error L1IncomingMessage) (ts bn : UInt64) (read : Nat)

/-- The delayed messages are all read behind this segment. -/
def ReadsLast (seg : Bytes) : Prop :=
  seq.afterDelayedMessages ≤ read ∨ (seq.afterDelayedMessages = read + 1 ∧
    isDelayedSegment seg = true ∧ ∃ m, readDelayedInbox read = .ok m)

theorem segmentMessage_cons (kind : UInt8) (body : Bytes) :
    segmentMessage seq hash readDelayedInbox ts bn read (kind :: body) =
      if kind = batchSegmentKindL2Message ∨ kind = batchSegmentKindL2MessageBrotli then
        match l2Payload kind body with
        | none => .ok (.error .brotli, read)
        | some payload => do
          let blockNumber ← Checked.clamp bn seq.minL1Block seq.maxL1Block
          let timestamp ← Checked.clamp ts seq.minTimestamp seq.maxTimestamp
          let message := ⟨⟨3, .zero, blockNumber, timestamp, none, 0⟩, payload, none⟩
          return (.ok (some ⟨⟨message, read⟩, hash, none⟩), read)
      else if kind = batchSegmentKindDelayedMessages then
        if seq.afterDelayedMessages ≤ read then
          .ok (.ok (some ⟨⟨invalidMessage seq, seq.afterDelayedMessages⟩, hash, none⟩), read)
        else
          match readDelayedInbox read with
          | .error e => .ok (.error e, read)
          | .ok delayed => do
            let read ← add64 read 1
            return (.ok (some ⟨⟨delayed, read⟩, none, none⟩), read)
      else .ok (.ok none, read) := by
  have head : index (kind :: body) 0 = .ok kind := index_ok rfl
  have tail : slice (kind :: body) 1 (kind :: body).length = .ok body :=
    slice_length (show 1 ≤ (kind :: body).length by simp)
  simp only [segmentMessage, head, tail, Checked.bind_ok, List.isEmpty_cons, Bool.false_eq_true,
    if_false]
  rfl

/-- Only `clamp` panics. -/
theorem segmentMessage_ok (small : seq.afterDelayedMessages < 2 ^ 64) {seg : Bytes}
    (clamps : isReadableL2 seg = true → BoundsOrdered seq) : ∃ result read',
      segmentMessage seq hash readDelayedInbox ts bn read seg = .ok (result, read') ∧
      NitroRs.segmentMessage seq hash readDelayedInbox ts bn read seg = .ok (result, read') ∧
      (seq.afterDelayedMessages ≤ read' ↔ ReadsLast seq readDelayedInbox read seg) := by
  cases seg with
  | nil => exact ⟨_, _, rfl, rfl, by simp [ReadsLast, isDelayedSegment]⟩
  | cons kind body =>
    rw [segmentMessage_cons]
    by_cases isL2 : kind = batchSegmentKindL2Message ∨ kind = batchSegmentKindL2MessageBrotli
    · have other : isDelayedSegment (kind :: body) = false := by
        rcases isL2 with rfl | rfl <;> rfl
      have last : seq.afterDelayedMessages ≤ read ↔ ReadsLast seq readDelayedInbox read (kind :: body) := by
        simp [ReadsLast, other]
      rw [if_pos isL2]
      cases decoded : l2Payload kind body with
      | none =>
        refine ⟨_, _, rfl, ?_, last⟩
        rw [l2Payload] at decoded
        simp only [NitroRs.segmentMessage, if_pos isL2, decoded]
      | some payload =>
        have readable : isReadableL2 (kind :: body) = true := by
          simp [isReadableL2, InboxTracker.isL2Segment, isL2, decoded]
        have ordered := clamps readable
        refine ⟨.ok (some ⟨⟨l2Message seq ts bn payload, read⟩, hash, none⟩), read, ?_, ?_, last⟩
        · simp only [Checked.clamp, if_pos ordered.blocks, if_pos ordered.timestamps, Checked.bind_ok]
          rfl
        · rw [segmentMessage_l2 seq hash _ ts bn read body ordered isL2, decoded]
    · rw [if_neg isL2]
      by_cases isDelayed : kind = batchSegmentKindDelayedMessages
      · subst isDelayed
        rw [if_pos rfl, segmentMessage_delayed]
        by_cases done : seq.afterDelayedMessages ≤ read
        · rw [if_pos done, if_pos done]
          exact ⟨_, _, rfl, rfl, by simp [ReadsLast, done]⟩
        · rw [if_neg done, if_neg done]
          cases stored : readDelayedInbox read with
          | error e => exact ⟨_, _, rfl, rfl, by simp [ReadsLast, stored]⟩
          | ok m =>
            have sum : add64 read 1 = .ok (read + 1) := add64_ok (by omega)
            refine ⟨_, _, by simp only [sum, Checked.bind_ok]; rfl, rfl, ?_⟩
            simp only [ReadsLast, isDelayedSegment, stored, decide_true, and_true,
              Except.ok.injEq, exists_eq']
            omega
      · rw [if_neg isDelayed]
        refine ⟨_, _, rfl, ?_, by simp [ReadsLast, isDelayedSegment, isDelayed]⟩
        rw [NitroRs.segmentMessage, if_neg isL2, if_neg isDelayed]

theorem segmentMessage_panic {seg : Bytes} (readable : isReadableL2 seg = true)
    (unordered : ¬ BoundsOrdered seq) :
    segmentMessage seq hash readDelayedInbox ts bn read seg = .error .clampBounds := by
  cases seg with
  | nil => contradiction
  | cons kind body =>
    simp only [isReadableL2, InboxTracker.isL2Segment, Bool.and_eq_true, Bool.or_eq_true,
      decide_eq_true_eq, List.headD_cons, List.tail_cons] at readable
    obtain ⟨isL2, decoded⟩ := readable
    obtain ⟨payload, decoded⟩ := Option.isSome_iff_exists.mp decoded
    rw [segmentMessage_cons, if_pos isL2, decoded]
    by_cases blocks : seq.minL1Block ≤ seq.maxL1Block
    · have timestamps : ¬ seq.minTimestamp ≤ seq.maxTimestamp := fun timestamps =>
        unordered ⟨timestamps, blocks⟩
      simp only [Checked.clamp, if_pos blocks, if_neg timestamps, Checked.bind_ok, Checked.bind_error]
    · simp only [Checked.clamp, if_neg blocks, Checked.bind_error]

end Segment

end Panics

section Loop
variable [Externals]

/-- The loop stops at the submessage that it looks for, or behind the last segment. -/
theorem scanSegments_stops {target : Nat} (segs : List Bytes) (cur : SegmentCursor)
    (behind : cur.submessageNumber ≤ target) : ∃ k n, k ≤ segs.length ∧
      (scanSegments target segs cur).segmentNum = cur.segmentNum + k ∧
      (scanSegments target segs cur).submessageNumber = cur.submessageNumber + n ∧
      cur.submessageNumber + n ≤ target ∧
      (segs.drop k).filter isSubmessage = (segs.filter isSubmessage).drop n ∧
      (segs.drop k = [] ∨ (cur.submessageNumber + n = target ∧
        ∃ seg rest, segs.drop k = seg :: rest ∧ isSubmessage seg = true)) := by
  induction segs generalizing cur with
  | nil => exact ⟨0, 0, Nat.le_refl _, rfl, rfl, behind, rfl, .inl rfl⟩
  | cons seg rest ih =>
    rw [scanSegments_cons]
    by_cases stops : isSubmessage seg = true ∧ target ≤ cur.submessageNumber
    · rw [if_pos stops]
      exact ⟨0, 0, Nat.zero_le _, rfl, rfl, behind, rfl,
        .inr ⟨by omega, seg, rest, rfl, stops.1⟩⟩
    · have number := cur.behind_submessageNumber seg
      rw [if_neg stops]
      by_cases submessage : isSubmessage seg = true
      · have before : cur.submessageNumber < target := not_le.mp fun reached => stops ⟨submessage, reached⟩
        rw [if_pos submessage] at number
        obtain ⟨k, n, inside, segment, counted, within, ahead, stop⟩ := ih (cur.behind seg) (by omega)
        rw [segment, counted, number, cur.behind_segmentNum]
        rw [number] at within stop
        refine ⟨k + 1, n + 1, by simpa using inside, by omega, by omega, by omega, ?_, ?_⟩
        · rw [List.drop_succ_cons, ahead, List.filter_cons_of_pos submessage, List.drop_succ_cons]
        · rw [List.drop_succ_cons]
          exact stop.imp_right fun stop => ⟨by omega, stop.2⟩
      · rw [if_neg submessage] at number
        obtain ⟨k, n, inside, segment, counted, within, ahead, stop⟩ := ih (cur.behind seg) (by omega)
        rw [segment, counted, number, cur.behind_segmentNum]
        rw [number] at within stop
        refine ⟨k + 1, n, by simpa using inside, by omega, rfl, within, ?_, ?_⟩
        · rw [List.drop_succ_cons, ahead, List.filter_cons_of_neg submessage]
        · rwa [List.drop_succ_cons]

end Loop

namespace SequencerMessage

/-- The submessage at a position; behind the last one the source reads a delayed segment. -/
def submessageAt (seq : SequencerMessage) (pos : Nat) : Bytes :=
  ((seq.segments.filter isSubmessage)[pos]?).getD [batchSegmentKindDelayedMessages]

end SequencerMessage

namespace InboxMultiplexer
variable [Externals]

/-- The message that the next `pop` works on. -/
def AtHand (mux : InboxMultiplexer) (seq : SequencerMessage) : Prop :=
  mux.cachedMsg = some seq ∨ (mux.cachedMsg = none ∧ ∃ b, mux.backend.currentBatch = some b ∧
    parseSequencerMessage b.serialized = .ok seq)

/-- The next `pop` reads the last message of the batch. -/
def LeavesBatch (mux : InboxMultiplexer) (seq : SequencerMessage) : Prop :=
  Panics.ReadsLast seq mux.backend.readDelayedInbox mux.delayedMessagesRead
      (seq.submessageAt mux.backend.posWithin) ∧
    ∀ seg ∈ (seq.segments.filter isSubmessage).drop (mux.backend.posWithin + 1), keepsOpen seg = false

/-- The next `pop` clamps within ordered bounds, and its position has a successor. -/
def SafePop (mux : InboxMultiplexer) : Prop :=
  ∀ seq, mux.AtHand seq →
    (isReadableL2 (seq.submessageAt mux.backend.posWithin) = true → BoundsOrdered seq) ∧
    (mux.backend.posWithin + 1 < 2 ^ 64 ∨ mux.LeavesBatch seq)

/-- The cursor is inside the message, in front of the submessages that it has not counted. -/
structure Inside (mux : InboxMultiplexer) (seq : SequencerMessage) : Prop where
  delayed : seq.afterDelayedMessages < 2 ^ 64
  few : seq.segments.length + 1 < 2 ^ 64
  segment : mux.cachedSegmentNum ≤ seq.segments.length
  reached : mux.cachedSubmessageNumber ≤ mux.backend.posWithin
  ahead : (seq.segments.drop mux.cachedSegmentNum).filter isSubmessage =
    (seq.segments.filter isSubmessage).drop mux.cachedSubmessageNumber

/-- The numbers that the multiplexer keeps fit their types. -/
structure InRange (mux : InboxMultiplexer) : Prop where
  position : mux.backend.posWithin < 2 ^ 64
  loaded : ∀ seq, mux.cachedMsg = some seq → mux.Inside seq
  unloaded : mux.cachedMsg = none → mux.cachedSegmentNum = 0 ∧ mux.cachedSubmessageNumber = 0

variable {mux : InboxMultiplexer} {seq : SequencerMessage}

/-- The state that `get_next_msg` leaves: the cursor is where the loop stops. -/
def scanned (mux : InboxMultiplexer) (seq : SequencerMessage) (read : Nat) : InboxMultiplexer :=
  let cur := scanSegments mux.backend.posWithin (seq.segments.drop mux.cachedSegmentNum) mux.cursor
  { mux with
    delayedMessagesRead := read
    cachedMsg := some seq
    cachedSegmentNum := cur.segmentNum
    cachedSegmentTimestamp := cur.timestamp
    cachedSegmentBlockNumber := cur.blockNumber
    cachedSubmessageNumber := cur.submessageNumber }

/-- The loop stops inside, at the submessage of the position. -/
theorem Inside.scanned (held : Inside mux seq) (read : Nat) :
    Inside (mux.scanned seq read) seq ∧
      (seq.segments[(mux.scanned seq read).cachedSegmentNum]?).getD [batchSegmentKindDelayedMessages] =
        seq.submessageAt mux.backend.posWithin ∧
      ((∀ seg ∈ seq.segments.drop ((mux.scanned seq read).cachedSegmentNum + 1), keepsOpen seg = false) ↔
        ∀ seg ∈ (seq.segments.filter isSubmessage).drop (mux.backend.posWithin + 1),
          keepsOpen seg = false) := by
  have behind : mux.cursor.submessageNumber ≤ mux.backend.posWithin := held.reached
  obtain ⟨k, n, inside, segment, number, within, ahead, stop⟩ :=
    scanSegments_stops (seq.segments.drop mux.cachedSegmentNum) mux.cursor behind
  change (mux.scanned seq read).cachedSegmentNum = mux.cachedSegmentNum + k at segment
  change (mux.scanned seq read).cachedSubmessageNumber = mux.cachedSubmessageNumber + n at number
  change mux.cachedSubmessageNumber + n ≤ _ at within
  change _ ∨ mux.cachedSubmessageNumber + n = _ ∧ _ at stop
  rw [List.drop_drop, ← segment] at stop ahead
  rw [held.ahead, List.drop_drop, ← number] at ahead
  rw [← number] at within stop
  rw [List.length_drop] at inside
  have bound := held.segment
  refine ⟨⟨held.delayed, held.few, by omega, within, ahead⟩, ?_, ?_⟩
  · rcases stop with nothing | ⟨level, seg, rest, next, submessage⟩
    · rw [nothing, List.filter_nil] at ahead
      have far : (seq.segments.filter isSubmessage)[mux.backend.posWithin]? = none :=
        List.getElem?_eq_none ((List.drop_eq_nil_iff.mp ahead.symm).trans within)
      rw [SequencerMessage.submessageAt, far, List.getElem?_eq_none (List.drop_eq_nil_iff.mp nothing)]
    · rw [next, List.filter_cons_of_pos submessage, level] at ahead
      have here : (seq.segments.filter isSubmessage)[mux.backend.posWithin]? = seg := by
        rw [← List.head?_drop, ← ahead, List.head?_cons]
      rw [SequencerMessage.submessageAt, here, ← List.head?_drop, next, List.head?_cons]
  · -- behind the stop, the segments that keep the batch open are submessages
    have behind : (seq.segments.drop ((mux.scanned seq read).cachedSegmentNum + 1)).filter isSubmessage =
        (seq.segments.filter isSubmessage).drop (mux.backend.posWithin + 1) := by
      rcases stop with nothing | ⟨level, seg, rest, next, submessage⟩
      · rw [nothing, List.filter_nil] at ahead
        have further := List.drop_eq_nil_iff.mp ahead.symm
        rw [← List.tail_drop, nothing, List.drop_of_length_le (by omega)]
        rfl
      · rw [next, List.filter_cons_of_pos submessage, level] at ahead
        rw [← List.tail_drop, next, List.tail_cons, ← List.tail_drop, ← ahead, List.tail_cons]
    rw [← behind]
    constructor
    · intro closed seg later
      exact closed seg (List.mem_of_mem_filter later)
    · intro closed seg later
      cases opens : keepsOpen seg with
      | false => rfl
      | true =>
        exact opens.symm.trans
          (closed seg (List.mem_filter.mpr ⟨later, Answers.isSubmessage_of_keepsOpen opens⟩))

/-- What `get_next_msg` does when the submessage at the position does. -/
theorem getNextMsg_checked (held : Inside mux seq) (position : mux.backend.posWithin < 2 ^ 64)
    (loaded : mux.cachedMsg = some seq) : Panics.getNextMsg mux = (do
      let (result, read) ← Panics.segmentMessage seq mux.cachedBatchHash mux.backend.readDelayedInbox
        (mux.scanned seq 0).cachedSegmentTimestamp (mux.scanned seq 0).cachedSegmentBlockNumber
        mux.delayedMessagesRead (seq.submessageAt mux.backend.posWithin)
      return (result, mux.scanned seq read)) := by
  have few := held.few
  have reads := (held.scanned 0).2.1
  have stops : Panics.scanSegments mux.backend.posWithin seq.segments seq.segments.length mux.cursor =
      .ok (scanSegments mux.backend.posWithin (seq.segments.drop mux.cachedSegmentNum) mux.cursor) :=
    Panics.scanSegments_ok (by omega) position (Nat.le_add_left _ _)
  rw [Panics.getNextMsg, loaded]
  simp only [stops, Checked.bind_ok]
  by_cases more : (mux.scanned seq 0).cachedSegmentNum < seq.segments.length
  · have here := List.getElem?_eq_getElem more
    rw [here] at reads
    refine (if_pos more).trans ?_
    rw [← reads]
    refine (congrArg (· >>= _) (index_ok here)).trans rfl
  · rw [List.getElem?_eq_none (not_lt.mp more)] at reads
    refine (if_neg more).trans ?_
    rw [← reads]
    rfl

/-- Unless `clamp` panics, both give the same result, and the state where the loop stops. -/
theorem getNextMsg_ok (held : Inside mux seq) (position : mux.backend.posWithin < 2 ^ 64)
    (loaded : mux.cachedMsg = some seq)
    (clamps : isReadableL2 (seq.submessageAt mux.backend.posWithin) = true → BoundsOrdered seq) :
    ∃ result read, Panics.getNextMsg mux = .ok (result, mux.scanned seq read) ∧
      mux.getNextMsg = .ok result (mux.scanned seq read) ∧
      (seq.afterDelayedMessages ≤ read ↔ Panics.ReadsLast seq mux.backend.readDelayedInbox
        mux.delayedMessagesRead (seq.submessageAt mux.backend.posWithin)) := by
  obtain ⟨result, read, checked, given, last⟩ := Panics.segmentMessage_ok seq mux.cachedBatchHash
    mux.backend.readDelayedInbox (mux.scanned seq 0).cachedSegmentTimestamp
    (mux.scanned seq 0).cachedSegmentBlockNumber mux.delayedMessagesRead held.delayed clamps
  refine ⟨result, read, ?_, ?_, last⟩
  · rw [getNextMsg_checked held position loaded, checked]
    rfl
  · rw [← (held.scanned 0).2.1] at given
    simp only [scanned, cursor] at given
    simp only [getNextMsg, loaded, given]
    rfl

theorem getNextMsg_panic (held : Inside mux seq) (position : mux.backend.posWithin < 2 ^ 64)
    (loaded : mux.cachedMsg = some seq)
    (readable : isReadableL2 (seq.submessageAt mux.backend.posWithin) = true)
    (unordered : ¬ BoundsOrdered seq) : Panics.getNextMsg mux = .error .clampBounds := by
  rw [getNextMsg_checked held position loaded,
    Panics.segmentMessage_panic _ _ _ _ _ _ readable unordered, Checked.bind_error]

omit [Externals] in
/-- Only the successor of the position overflows. -/
theorem advance_checked (held : Inside mux seq) (loaded : mux.cachedMsg = some seq) :
    Panics.advance mux = if mux.isCachedSegmentLast = true ∨ mux.backend.posWithin + 1 < 2 ^ 64 then
      .ok mux.advance else .error .overflow := by
  have few := held.few
  have segment := held.segment
  have behind : add64 mux.cachedSegmentNum 1 = .ok (mux.cachedSegmentNum + 1) := add64_ok (by omega)
  have last : Panics.isCachedSegmentLast mux = .ok mux.isCachedSegmentLast := by
    simp only [Panics.isCachedSegmentLast, isCachedSegmentLast, loaded, behind, Checked.bind_ok,
      Panics.noneKeepsOpen_ok]
    by_cases more : mux.delayedMessagesRead < seq.afterDelayedMessages
    · rw [if_pos more, decide_eq_true more]
      rfl
    · rw [if_neg more, decide_eq_false more]
      rfl
  rw [Panics.advance, last, Checked.bind_ok, advance]
  cases mux.isCachedSegmentLast with
  | true => rfl
  | false =>
    rw [if_neg Bool.false_ne_true, if_neg Bool.false_ne_true]
    by_cases room : mux.backend.posWithin + 1 < 2 ^ 64
    · rw [if_pos (.inr room), add64_ok room]
      rfl
    · rw [if_neg (not_or.mpr ⟨Bool.false_ne_true, room⟩), add64_overflow (not_lt.mp room)]
      rfl

/-- The source's look-ahead, behind the state of `get_next_msg`. -/
theorem isCachedSegmentLast_scanned (held : Inside mux seq) {read : Nat}
    (last : seq.afterDelayedMessages ≤ read ↔ Panics.ReadsLast seq mux.backend.readDelayedInbox
      mux.delayedMessagesRead (seq.submessageAt mux.backend.posWithin)) :
    (mux.scanned seq read).isCachedSegmentLast = true ↔ mux.LeavesBatch seq := by
  have cached : (mux.scanned seq read).cachedMsg = some seq := rfl
  rw [isCachedSegmentLast, cached, LeavesBatch, ← last, ← (held.scanned read).2.2]
  change (!decide (read < _) && _) = true ↔ _
  rw [Bool.and_eq_true, Bool.not_eq_true', decide_eq_false_iff_not, not_lt, Bool.not_eq_true',
    List.any_eq_false]
  simp only [Bool.not_eq_true]

omit [Externals] in
theorem Inside.advance (held : Inside mux seq) (loaded : mux.cachedMsg = some seq)
    (room : mux.isCachedSegmentLast = true ∨ mux.backend.posWithin + 1 < 2 ^ 64) :
    InRange mux.advance := by
  rw [InboxMultiplexer.advance]
  cases last : mux.isCachedSegmentLast with
  | true =>
    have reset : mux.advanceSeqMsg.backend.posWithin = 0 := by
      rw [advanceSeqMsg, InboxBackend.advanceSequencerInbox, apply_ite InboxBackend.posWithin]
      split <;> rfl
    rw [if_pos rfl]
    refine ⟨?_, fun s cached => ?_, fun _ => ⟨rfl, rfl⟩⟩
    · rw [reset]
      exact Nat.two_pow_pos 64
    · cases cached
  | false =>
    have small : mux.backend.posWithin + 1 < 2 ^ 64 := by simpa [last] using room
    rw [if_neg Bool.false_ne_true]
    refine ⟨small, ?_, fun cached => ?_⟩
    · intro s cached
      cases loaded.symm.trans cached
      exact ⟨held.delayed, held.few, held.segment, held.reached.trans (Nat.le_succ _), held.ahead⟩
    · cases loaded.symm.trans cached

/-- A multiplexer with a message at hand: both calls agree if the next `pop` is safe, and else it panics. -/
theorem popLoaded_cases (range : InRange mux) (loaded : mux.cachedMsg = some seq) :
    (mux.SafePop ∧ Panics.popLoaded mux = .ok mux.pop ∧ InRange (Outcome.final mux.pop)) ∨
      (¬ mux.SafePop ∧ ∃ panic, Panics.popLoaded mux = .error panic) := by
  have held := range.loaded seq loaded
  have only (s : SequencerMessage) : mux.AtHand s ↔ s = seq := by
    simp only [AtHand, loaded, Option.some.injEq, reduceCtorEq, false_and, or_false, eq_comm]
  have safe : mux.SafePop ↔ (isReadableL2 (seq.submessageAt mux.backend.posWithin) = true →
      BoundsOrdered seq) ∧ (mux.backend.posWithin + 1 < 2 ^ 64 ∨ mux.LeavesBatch seq) := by
    simp only [SafePop, only, forall_eq]
  by_cases clamps : isReadableL2 (seq.submessageAt mux.backend.posWithin) = true → BoundsOrdered seq
  · obtain ⟨result, read, checked, given, last⟩ := getNextMsg_ok held range.position loaded clamps
    have leaves := isCachedSegmentLast_scanned held last
    have advanced := advance_checked (held.scanned read).1 rfl
    by_cases room : (mux.scanned seq read).isCachedSegmentLast = true ∨ mux.backend.posWithin + 1 < 2 ^ 64
    · replace advanced := advanced.trans (if_pos room)
      have popped : mux.pop = (match result with
          | .error e => .error e (mux.scanned seq read).advance
          | .ok msg => .ok msg (mux.scanned seq read).advance) := by
        simp only [pop, loadMsg, loaded, given]
        cases result <;> rfl
      refine .inl ⟨safe.mpr ⟨clamps, room.symm.imp_right leaves.mp⟩, ?_, ?_⟩
      · rw [Panics.popLoaded, checked, Checked.bind_ok, popped]
        simp only [advanced, Checked.bind_ok]
        cases result <;> rfl
      · have kept := (held.scanned read).1.advance rfl room
        rw [popped]
        cases result <;> exact kept
    · replace advanced := advanced.trans (if_neg room)
      refine .inr ⟨fun safely => room ((safe.mp safely).2.symm.imp_left leaves.mpr), .overflow, ?_⟩
      rw [Panics.popLoaded, checked, Checked.bind_ok]
      simp only [advanced, Checked.bind_error]
  · refine .inr ⟨fun safely => clamps (safe.mp safely).1, .clampBounds, ?_⟩
    obtain ⟨readable, unordered⟩ := Classical.not_imp.mp clamps
    rw [Panics.popLoaded, getNextMsg_panic held range.position loaded readable unordered,
      Checked.bind_error]

/-- A batch is loaded with the cursor at its start. -/
theorem InRange.load (range : InRange mux) (cached : mux.cachedMsg = none) {data : Bytes}
    (parsed : parseSequencerMessage data = .ok seq) (hash : Option B256) :
    InRange { mux with cachedBatchHash := hash, cachedMsg := some seq } := by
  obtain ⟨long, segments, split, rfl⟩ := parseSequencerMessage_eq_ok.mp parsed
  obtain ⟨first, counted⟩ := range.unloaded cached
  have capped := parseSegments_length split
  have cap : segmentCap + 2 < 2 ^ 64 := by decide
  refine ⟨range.position, fun s loaded => ?_, fun unloaded => ?_⟩
  · cases loaded
    refine ⟨u64beAt_lt _ _, ?_, ?_, ?_, ?_⟩
    · change segments.length + 1 < _
      omega
    · exact first.trans_le (Nat.zero_le _)
    · exact counted.trans_le (Nat.zero_le _)
    · change (List.drop mux.cachedSegmentNum _).filter _ = List.drop mux.cachedSubmessageNumber _
      rw [first, counted]
      rfl
  · cases unloaded

/-- The first part of `pop` ends the call, or it leaves a message at hand. -/
theorem loadMsg_checked (range : InRange mux) :
    (mux.SafePop ∧ Panics.pop mux = .ok mux.pop ∧ Outcome.final mux.pop = mux) ∨
      ∃ mux' seq, mux'.cachedMsg = some seq ∧ InRange mux' ∧ (mux.SafePop ↔ mux'.SafePop) ∧
        Panics.pop mux = Panics.popLoaded mux' ∧ mux.pop = mux'.pop := by
  cases cached : mux.cachedMsg with
  | some seq =>
    refine .inr ⟨mux, seq, cached, range, Iff.rfl, ?_, rfl⟩
    simp only [Panics.pop, Panics.loadMsg, cached]
    rfl
  | none =>
    have hand (s : SequencerMessage) : mux.AtHand s ↔ ∃ b, mux.backend.currentBatch = some b ∧
        parseSequencerMessage b.serialized = .ok s := by
      simp [AtHand, cached]
    cases current : mux.backend.currentBatch with
    | none =>
      have ends : mux.pop = .ok none mux := by
        simp only [pop, loadMsg, cached, InboxBackend.peekSequencerInbox, current]
      refine .inl ⟨?_, ?_, by rw [ends]; rfl⟩
      · intro s held
        simp [hand, current] at held
      · rw [ends]
        simp only [Panics.pop, Panics.loadMsg, cached, InboxBackend.peekSequencerInbox, current]
        rfl
    | some b =>
      have parses := Panics.parseSequencerMessage_ok b.serialized
      cases parsed : parseSequencerMessage b.serialized with
      | error e =>
        have ends : mux.pop = .error e mux := by
          simp only [pop, loadMsg, cached, InboxBackend.peekSequencerInbox, current, parsed]
        refine .inl ⟨?_, ?_, by rw [ends]; rfl⟩
        · intro s held
          simp [hand, current, parsed] at held
        · rw [ends]
          simp only [Panics.pop, Panics.loadMsg, cached, InboxBackend.peekSequencerInbox, current,
            parses, parsed, Checked.bind_ok]
          rfl
      | ok seq =>
        let mux' := { mux with cachedBatchHash := some b.blockHash, cachedMsg := some seq }
        have same (s : SequencerMessage) : mux.AtHand s ↔ mux'.AtHand s := by
          rw [hand]
          simp [current, parsed, AtHand, mux']
        refine .inr ⟨mux', seq, rfl, range.load cached parsed _, ?_, ?_, ?_⟩
        · simp only [SafePop, same]
          rfl
        · simp only [Panics.pop, Panics.loadMsg, cached, InboxBackend.peekSequencerInbox, current,
            parses, parsed, Checked.bind_ok]
          rfl
        · have loads : mux.loadMsg = .ok (some seq) mux' := by
            simp only [loadMsg, cached, InboxBackend.peekSequencerInbox, current, parsed]
            rfl
          simp only [pop, loads]
          rfl

/-- Either both calls agree and the next `pop` is safe, or it is not and panics. -/
theorem pop_checked (range : InRange mux) :
    (mux.SafePop ∧ Panics.pop mux = .ok mux.pop ∧ InRange (Outcome.final mux.pop)) ∨
      (¬ mux.SafePop ∧ ∃ panic, Panics.pop mux = .error panic) := by
  rcases loadMsg_checked range with
    ⟨safe, checked, unmoved⟩ | ⟨mux', seq, loaded, range', safe, checked, same⟩
  · exact .inl ⟨safe, checked, by rwa [unmoved]⟩
  · rw [safe, checked, same]
    exact popLoaded_cases range' loaded

/-- The states between calls: any backend at the start, calls that return, and a
delayed inbox that may be another one at every call. -/
inductive PopReachable : InboxMultiplexer → Prop
  | new (b : InboxBackend) (read : Nat) : b.posWithin < 2 ^ 64 → PopReachable (new b read)
  | pop {mux : InboxMultiplexer} {r} : PopReachable mux → Panics.pop mux = .ok r →
      PopReachable (Outcome.final r)
  | delayed {mux : InboxMultiplexer} (readDelayedInbox : Nat → Except Error L1IncomingMessage) :
      PopReachable mux → PopReachable { mux with backend := { mux.backend with readDelayedInbox } }

theorem PopReachable.inRange (reached : PopReachable mux) : InRange mux := by
  induction reached with
  | new b read small =>
    refine ⟨small, fun s cached => ?_, fun _ => ⟨rfl, rfl⟩⟩
    cases cached
  | @pop mux r reached ran ih =>
    rcases pop_checked ih with ⟨safe, checked, kept⟩ | ⟨unsafely, panic, panics⟩
    · cases ran.symm.trans checked
      exact kept
    · cases ran.symm.trans panics
  | delayed readDelayedInbox reached ih =>
    exact ⟨ih.position, fun s cached => ⟨(ih.loaded s cached).delayed, (ih.loaded s cached).few,
      (ih.loaded s cached).segment, (ih.loaded s cached).reached, (ih.loaded s cached).ahead⟩, ih.unloaded⟩

/-- In every state of a run, `pop` returns exactly when it is safe, with the result of
the model; the parser always returns. -/
theorem pop_returns_iff (reached : PopReachable mux) :
    ((∃ r, Panics.pop mux = .ok r) ↔ mux.SafePop) ∧
      (∀ r, Panics.pop mux = .ok r → r = mux.pop) ∧
      ∀ data, ∃ r, Panics.parseSequencerMessage data = .ok r := by
  refine ⟨?_, ?_, fun data => ⟨_, Panics.parseSequencerMessage_ok data⟩⟩
  · rcases pop_checked reached.inRange with ⟨safe, checked, _⟩ | ⟨unsafely, panic, panics⟩
    · exact iff_of_true ⟨_, checked⟩ safe
    · exact iff_of_false (fun ⟨r, ran⟩ => nomatch ran.symm.trans panics) unsafely
  · intro r ran
    rcases pop_checked reached.inRange with ⟨safe, checked, _⟩ | ⟨unsafely, panic, panics⟩
    · exact Except.ok.inj (ran.symm.trans checked)
    · cases ran.symm.trans panics

end InboxMultiplexer

section Samples
open Codecs InboxMultiplexer

theorem plain_batch_pops :
    ∃ r, Panics.pop (new ⟨[batch 0 0 [[0, 7]]], 0, 0, fun _ => .error .notFound⟩ 0) = .ok r := by
  refine (pop_returns_iff (.new _ 0 (by decide))).1.mpr ?_
  intro seq held
  have read := parse_batch 0 (show 0 < 2 ^ 64 by decide)
    (show [[0, 7]].length ≤ segmentCap + 1 by decide)
  rcases held with cached | ⟨_, b, current, parsed⟩
  · cases cached
  · cases current
    cases read.symm.trans parsed
    exact ⟨fun _ => ⟨by decide, by decide⟩, .inl (by decide)⟩

/-- A batch with one L2 segment, whose least timestamp is above its greatest. -/
def unorderedBatch : SequencerInboxBatch :=
  { batch 0 0 [] with serialized := batchHeader ⟨1, 0, 0, 0⟩ 0 ++ rlpEncodeVec [0, 7] }

theorem unordered_bounds_panic :
    PopReachable (new ⟨[unorderedBatch], 0, 0, fun _ => .error .notFound⟩ 0) ∧
      Panics.pop (new ⟨[unorderedBatch], 0, 0, fun _ => .error .notFound⟩ 0) = .error .clampBounds :=
  ⟨.new _ 0 (by decide), by rfl⟩

end Samples
end NitroRs
