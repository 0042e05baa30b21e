import NitroRs.Inbox.EndOfStream

/-! Resuming inside a batch. A multiplexer that has popped some messages scans on from
its cached cursor; a new one on the same position scans the segments from the start.
Both scans end at the same cursor, so that the two are in the same state from there on. -/
namespace NitroRs

/-- A scan from where one with a smaller target stopped is a scan from the start. -/
theorem scanSegments_resume [Externals] {target target' : Nat} (later : target ≤ target')
    (segs : List Bytes) (cur : SegmentCursor) :
    ∃ k, (scanSegments target segs cur).segmentNum = cur.segmentNum + k ∧
      scanSegments target' (segs.drop k) (scanSegments target segs cur) =
        scanSegments target' segs cur := by
  induction segs generalizing cur with
  | nil => exact ⟨0, rfl, rfl⟩
  | cons seg rest ih =>
    by_cases stops : isSubmessage seg = true ∧ target ≤ cur.submessageNumber
    · rw [scanSegments_cons cur seg target rest, if_pos stops]
      exact ⟨0, rfl, rfl⟩
    · -- both scans take a segment that the first one takes
      have takes : ¬ (isSubmessage seg = true ∧ target' ≤ cur.submessageNumber) :=
        fun stops' => stops ⟨stops'.1, later.trans stops'.2⟩
      obtain ⟨k, number, same⟩ := ih (cur.behind seg)
      rw [scanSegments_cons cur seg target rest, if_neg stops, scanSegments_cons cur seg target' rest,
        if_neg takes]
      refine ⟨k + 1, ?_, same⟩
      rw [number, cur.behind_segmentNum, Nat.add_assoc, Nat.add_comm 1 k]

/-- With ordered bounds no segment panics. -/
theorem segmentMessage_ordered [Externals] {seq : SequencerMessage} (ordered : BoundsOrdered seq)
    (hash : Option B256) (readDelayedInbox : Nat → Except Error L1IncomingMessage)
    (ts bn : UInt64) (read : Nat) (seg : Bytes) :
    ∃ result read', segmentMessage seq hash readDelayedInbox ts bn read seg = .ok (result, read') := by
  cases seg with
  | nil => exact ⟨_, _, rfl⟩
  | cons kind body =>
    by_cases isL2 : kind = batchSegmentKindL2Message ∨ kind = batchSegmentKindL2MessageBrotli
    · rw [segmentMessage_l2 seq hash _ ts bn read body ordered isL2]
      split
      · exact ⟨_, _, rfl⟩
      · exact ⟨_, _, rfl⟩
    · rw [segmentMessage, if_neg isL2]
      split
      · split
        · exact ⟨_, _, rfl⟩
        · split
          · exact ⟨_, _, rfl⟩
          · exact ⟨_, _, rfl⟩
      · exact ⟨_, _, rfl⟩

namespace InboxMultiplexer
variable [Externals]

def cursor (mux : InboxMultiplexer) : SegmentCursor :=
  ⟨mux.cachedSegmentNum, mux.cachedSegmentTimestamp, mux.cachedSegmentBlockNumber, mux.cachedSubmessageNumber⟩

/-- The multiplexer has taken `k` positions of a batch: scanning on from its cursor is
scanning from the start. -/
structure Taken (b : InboxBackend) (seq : SequencerMessage) (hash : Option B256) (k : Nat)
    (mux : InboxMultiplexer) : Prop where
  backend : mux.backend = b.setPositionWithinMessage k
  cachedMsg : mux.cachedMsg = some seq
  cachedBatchHash : mux.cachedBatchHash = hash
  rescans : scanSegments k (seq.segments.drop mux.cachedSegmentNum) mux.cursor =
    scanSegments k seq.segments ⟨0, 0, 0, 0⟩

variable {b : InboxBackend} {batch : SequencerInboxBatch} {seq : SequencerMessage} {k : Nat}
  {mux : InboxMultiplexer}

/-- A new multiplexer loads the batch. -/
theorem loadMsg_new (current : b.currentBatch = some batch)
    (parsed : parseSequencerMessage batch.serialized = .ok seq) (k read : Nat) :
    (new (b.setPositionWithinMessage k) read).loadMsg =
      .ok (some seq) { new (b.setPositionWithinMessage k) read with
        cachedMsg := some seq, cachedBatchHash := some batch.blockHash } := by
  have here : (b.setPositionWithinMessage k).currentBatch = some batch := current
  simp only [loadMsg, new, InboxBackend.peekSequencerInbox, here, parsed]

/-- The cached cursor is all that the two multiplexers differ in, and `get_next_msg`
overwrites it. -/
theorem pop_taken (current : b.currentBatch = some batch)
    (parsed : parseSequencerMessage batch.serialized = .ok seq)
    (taken : Taken b seq (some batch.blockHash) k mux) :
    (new (b.setPositionWithinMessage k) mux.delayedMessagesRead).pop = mux.pop := by
  obtain ⟨backend, read, cachedMsg, hash, num, ts, bn, sub⟩ := mux
  obtain ⟨rfl, rfl, rfl, rescans⟩ := taken
  have rescans : scanSegments k (seq.segments.drop num) ⟨num, ts, bn, sub⟩ =
    scanSegments k seq.segments ⟨0, 0, 0, 0⟩ := rescans
  have position : (b.setPositionWithinMessage k).posWithin = k := rfl
  rw [pop, loadMsg_new current parsed]
  simp only [pop, loadMsg, getNextMsg, new, position, List.drop_zero, rescans]

/-- A `pop` that does not leave the batch takes one position more. -/
theorem taken_pop (current : b.currentBatch = some batch)
    (parsed : parseSequencerMessage batch.serialized = .ok seq) (ordered : BoundsOrdered seq)
    (k read : Nat)
    (stays : (Outcome.final (new (b.setPositionWithinMessage k) read).pop).backend.batchIdx = b.batchIdx) :
    Taken b seq (some batch.blockHash) (k + 1)
      (Outcome.final (new (b.setPositionWithinMessage k) read).pop) := by
  let cur := scanSegments k seq.segments ⟨0, 0, 0, 0⟩
  obtain ⟨result, read', emitted⟩ := segmentMessage_ordered ordered (some batch.blockHash)
    b.readDelayedInbox cur.timestamp cur.blockNumber read
    ((seq.segments[cur.segmentNum]?).getD [batchSegmentKindDelayedMessages])
  let stepped : InboxMultiplexer := ⟨b.setPositionWithinMessage k, read', some seq, some batch.blockHash,
    cur.segmentNum, cur.timestamp, cur.blockNumber, cur.submessageNumber⟩
  have popped : Outcome.final (new (b.setPositionWithinMessage k) read).pop = stepped.advance := by
    have scanned : getNextMsg { new (b.setPositionWithinMessage k) read with
        cachedMsg := some seq, cachedBatchHash := some batch.blockHash } = .ok result stepped := by
      simp only [getNextMsg, new, InboxBackend.setPositionWithinMessage, List.drop_zero, cur] at emitted ⊢
      rw [emitted]
      rfl
    rw [pop, loadMsg_new current parsed]
    simp only [scanned]
    cases result <;> rfl
  have inside : b.batchIdx < b.batches.length := (List.getElem?_eq_some_iff.mp current).1
  rw [popped, advance] at stays ⊢
  split at stays
  · have left : stepped.advanceSeqMsg.backend.batchIdx = b.batchIdx + 1 := by
      have bound : (b.setPositionWithinMessage k).batchIdx < (b.setPositionWithinMessage k).batches.length :=
        inside
      exact congrArg InboxBackend.batchIdx (if_pos bound)
    omega
  · rename_i more
    rw [if_neg more]
    obtain ⟨j, number, resumed⟩ := scanSegments_resume (Nat.le_succ k) seq.segments ⟨0, 0, 0, 0⟩
    refine ⟨rfl, rfl, rfl, ?_⟩
    have dropped : seq.segments.drop cur.segmentNum = seq.segments.drop j := by
      rw [number, Nat.zero_add]
    exact (congrArg (scanSegments (k + 1) · cur) dropped).trans resumed

/-- The batch that the multiplexer stands at is left by the `n`th `pop`. -/
structure TakesPops (start : InboxMultiplexer) (n : Nat) : Prop where
  within : ∀ j < n, (start.afterPops j).backend.batchIdx = start.backend.batchIdx
  left : (start.afterPops n).backend.batchIdx ≠ start.backend.batchIdx

/-- A multiplexer without a batch to load, or whose batch does not parse, stays where it is. -/
theorem TakesPops.parses {read n : Nat} (takes : TakesPops (new b read) n) :
    ∃ batch seq, b.currentBatch = some batch ∧ parseSequencerMessage batch.serialized = .ok seq := by
  have stuck (unmoved : Outcome.final (new b read).pop = new b read) : False := by
    apply takes.left
    rw [afterPops, Function.iterate_fixed unmoved]
  cases current : b.currentBatch with
  | none =>
    refine (stuck ?_).elim
    simp only [pop, loadMsg, new, InboxBackend.peekSequencerInbox, current, Outcome.final_ok]
  | some batch =>
    cases parsed : parseSequencerMessage batch.serialized with
    | ok seq => exact ⟨batch, seq, rfl, parsed⟩
    | error e =>
      refine (stuck ?_).elim
      simp only [pop, loadMsg, new, InboxBackend.peekSequencerInbox, current, parsed, Outcome.final_error]

/-- A new multiplexer at position `k` of a batch goes on exactly like the one that has
popped `k` times from its start: the same result and the same state. -/
theorem pop_resumed {read n : Nat} (start : b.posWithin = 0)
    (ordered : ∀ batch seq, b.currentBatch = some batch →
      parseSequencerMessage batch.serialized = .ok seq → BoundsOrdered seq)
    (takes : TakesPops (new b read) n) (before : k < n) :
    (new (b.setPositionWithinMessage k) ((new b read).afterPops k).delayedMessagesRead).pop =
      ((new b read).afterPops k).pop := by
  obtain ⟨batch, seq, current, parsed⟩ := takes.parses
  induction k with
  | zero =>
    have same : b.setPositionWithinMessage 0 = b := by
      rw [InboxBackend.setPositionWithinMessage, ← start]
    rw [same]
    rfl
  | succ k ih =>
    have stays := takes.within (k + 1) before
    have popped : (new b read).afterPops (k + 1) =
        Outcome.final ((new b read).afterPops k).pop := Function.iterate_succ_apply' ..
    rw [popped, ← ih (by omega)] at stays ⊢
    exact pop_taken current parsed
      (taken_pop current parsed (ordered batch seq current parsed) k _ stays)

end InboxMultiplexer

section Samples
open Codecs InboxMultiplexer

/-- A batch with an advance segment in front of its second message, and one delayed message. -/
def resumedBackend : InboxBackend :=
  ⟨[batch 0 1 [[0, 7], [3, 5], [2], [], [0, 8]]], 0, 0,
    fun _ => .ok ⟨⟨3, .zero, 0, 0, none, 0⟩, [], none⟩⟩

theorem resumed_at_third_message :
    (new (resumedBackend.setPositionWithinMessage 2)
      ((new resumedBackend 0).afterPops 2).delayedMessagesRead).pop =
    ((new resumedBackend 0).afterPops 2).pop := by
  refine pop_resumed (n := 3) rfl ?_ ⟨by decide +kernel, by decide +kernel⟩ (by decide)
  intro b seq current parsed
  cases current
  have read := parse_batch 0 (show 1 < 2 ^ 64 by decide)
    (show [[0, 7], [3, 5], [2], [], [0, 8]].length ≤ segmentCap + 1 by decide)
  cases read.symm.trans parsed
  exact ⟨by decide, by decide⟩

end Samples
end NitroRs
