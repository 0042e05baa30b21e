import NitroRs.Inbox.Multiplexer
import NitroRs.Lib.Outcome

/-! The multiplexer without its cache: a feed that consumes the segments of the
current batch from the front. The multiplexer's look-ups by segment number and
submessage number are proved to refine it, so that every later result about a
stream of messages is an induction over lists. -/
namespace NitroRs

/-- A segment that takes a position of its own within the batch. -/
def isSubmessage : Bytes → Bool
  | [] => false
  | kind :: _ =>
      kind ≠ batchSegmentKindAdvanceTimestamp && kind ≠ batchSegmentKindAdvanceL1BlockNumber

/-- The cursor behind a segment. -/
def SegmentCursor.behind [Externals] (cur : SegmentCursor) : Bytes → SegmentCursor
  | [] => { cur with segmentNum := cur.segmentNum + 1 }
  | kind :: body =>
    if kind = batchSegmentKindAdvanceTimestamp then
      { cur with segmentNum := cur.segmentNum + 1, timestamp := advanceBy cur.timestamp body }
    else if kind = batchSegmentKindAdvanceL1BlockNumber then
      { cur with segmentNum := cur.segmentNum + 1, blockNumber := advanceBy cur.blockNumber body }
    else { cur with segmentNum := cur.segmentNum + 1, submessageNumber := cur.submessageNumber + 1 }

section Behind
variable [Externals] (cur : SegmentCursor) (seg : Bytes)

@[simp] theorem SegmentCursor.behind_segmentNum : (cur.behind seg).segmentNum = cur.segmentNum + 1 := by
  unfold behind
  split
  · rfl
  · split
    · rfl
    · split <;> rfl

theorem SegmentCursor.behind_submessageNumber : (cur.behind seg).submessageNumber =
    if isSubmessage seg = true then cur.submessageNumber + 1 else cur.submessageNumber := by
  cases seg with
  | nil => rfl
  | cons kind body =>
    rw [behind]
    by_cases isTimestamp : kind = batchSegmentKindAdvanceTimestamp
    · rw [if_pos isTimestamp, if_neg (by simp [isSubmessage, isTimestamp])]
    · by_cases isBlock : kind = batchSegmentKindAdvanceL1BlockNumber
      · rw [if_neg isTimestamp, if_pos isBlock, if_neg (by simp [isSubmessage, isBlock])]
      · rw [if_neg isTimestamp, if_neg isBlock, if_pos (by simp [isSubmessage, isTimestamp, isBlock])]

/-- The loop stops in front of a submessage when it has counted to its target. -/
theorem scanSegments_cons (target : Nat) (rest : List Bytes) :
    scanSegments target (seg :: rest) cur =
      if isSubmessage seg = true ∧ target ≤ cur.submessageNumber then cur
      else scanSegments target rest (cur.behind seg) := by
  cases seg with
  | nil => rfl
  | cons kind body =>
    rw [scanSegments, SegmentCursor.behind]
    by_cases isTimestamp : kind = batchSegmentKindAdvanceTimestamp
    · rw [if_pos isTimestamp, if_pos isTimestamp, if_neg (by simp [isSubmessage, isTimestamp])]
    · by_cases isBlock : kind = batchSegmentKindAdvanceL1BlockNumber
      · rw [if_neg isTimestamp, if_pos isBlock, if_neg isTimestamp, if_pos isBlock,
          if_neg (by simp [isSubmessage, isBlock])]
      · have submessage : isSubmessage (kind :: body) = true := by simp [isSubmessage, isTimestamp, isBlock]
        rw [if_neg isTimestamp, if_neg isBlock, if_neg isTimestamp, if_neg isBlock]
        by_cases before : cur.submessageNumber < target
        · rw [if_pos before, if_neg (by omega)]
        · rw [if_neg before, if_pos ⟨submessage, not_lt.mp before⟩]

end Behind

/-- What is left to read of the current batch. -/
structure Walk where
  rest : List Bytes
  timestamp : UInt64
  blockNumber : UInt64
  delayedRead : Nat

namespace Walk

/-- Read the segments in front of the next submessage. -/
def skip [Externals] (read : Nat) : List Bytes → UInt64 → UInt64 → Walk
  | [], timestamp, blockNumber => ⟨[], timestamp, blockNumber, read⟩
  | [] :: rest, timestamp, blockNumber => skip read rest timestamp blockNumber
  | (kind :: body) :: rest, timestamp, blockNumber =>
      if kind = batchSegmentKindAdvanceTimestamp then
        skip read rest (advanceBy timestamp body) blockNumber
      else if kind = batchSegmentKindAdvanceL1BlockNumber then
        skip read rest timestamp (advanceBy blockNumber body)
      else ⟨(kind :: body) :: rest, timestamp, blockNumber, read⟩

def skipped [Externals] (w : Walk) : Walk := skip w.delayedRead w.rest w.timestamp w.blockNumber

/-- The segment that the next `pop` reads: virtual past the end. -/
def segment (w : Walk) : Bytes := w.rest.headD [batchSegmentKindDelayedMessages]

theorem segment_nil {w : Walk} (empty : w.rest = []) : w.segment = [batchSegmentKindDelayedMessages] := by
  rw [segment, empty, List.headD_nil]

theorem segment_cons {w : Walk} {seg : Bytes} {tail : List Bytes} (front : w.rest = seg :: tail) :
    w.segment = seg := by
  rw [segment, front, List.headD_cons]

/-- Step over the segment just read. -/
def next (w : Walk) (read : Nat) : Walk := ⟨w.rest.tail, w.timestamp, w.blockNumber, read⟩

def finished (w : Walk) (seq : SequencerMessage) : Bool :=
  !(w.delayedRead < seq.afterDelayedMessages) && !(w.rest.any keepsOpen)

theorem finished_iff {w : Walk} {seq : SequencerMessage} :
    w.finished seq = true ↔ seq.afterDelayedMessages ≤ w.delayedRead ∧ w.rest.any keepsOpen = false := by
  simp only [finished, Bool.and_eq_true, Bool.not_eq_true', decide_eq_false_iff_not, Nat.not_lt]

@[simp] theorem skip_delayedRead [Externals] (read : Nat) (rest : List Bytes) (ts bn : UInt64) :
    (skip read rest ts bn).delayedRead = read := by
  induction rest generalizing ts bn with
  | nil => rfl
  | cons seg rest ih =>
    cases seg with
    | nil => exact ih ts bn
    | cons kind body =>
      unfold skip
      split
      · exact ih _ _
      · split
        · exact ih _ _
        · rfl

/-- The skipped segments are a prefix, and a submessage stops the skipping. -/
theorem skip_rest [Externals] (read : Nat) (rest : List Bytes) (ts bn : UInt64) :
    ∃ k, (skip read rest ts bn).rest = rest.drop k ∧
      (rest.drop k = [] ∨ ∃ seg tail, rest.drop k = seg :: tail ∧ isSubmessage seg) := by
  induction rest generalizing ts bn with
  | nil => exact ⟨0, rfl, .inl rfl⟩
  | cons seg rest ih =>
    cases seg with
    | nil =>
      obtain ⟨k, same, stop⟩ := ih ts bn
      exact ⟨k + 1, same, stop⟩
    | cons kind body =>
      unfold skip
      split
      · obtain ⟨k, same, stop⟩ := ih (advanceBy ts body) bn
        exact ⟨k + 1, same, stop⟩
      · rename_i notTimestamp
        split
        · obtain ⟨k, same, stop⟩ := ih ts (advanceBy bn body)
          exact ⟨k + 1, same, stop⟩
        · rename_i notBlock
          refine ⟨0, rfl, .inr ⟨_, _, rfl, ?_⟩⟩
          simp [isSubmessage, notTimestamp, notBlock]

theorem skipped_suffix [Externals] (w : Walk) : w.skipped.rest <:+ w.rest := by
  obtain ⟨k, same, _⟩ := skip_rest w.delayedRead w.rest w.timestamp w.blockNumber
  rw [skipped, same]
  exact List.drop_suffix k w.rest

theorem skipped_stops [Externals] (w : Walk) : w.skipped.rest = [] ∨
    ∃ seg tail, w.skipped.rest = seg :: tail ∧ isSubmessage seg = true := by
  obtain ⟨k, same, stop⟩ := skip_rest w.delayedRead w.rest w.timestamp w.blockNumber
  rwa [← same] at stop

/-- What passes over the segments in front of a submessage is the same after skipping them. -/
theorem skip_invariant [Externals] {α : Sort _} (f : List Bytes → UInt64 → UInt64 → α)
    (empty : ∀ rest ts bn, f ([] :: rest) ts bn = f rest ts bn)
    (timestamp : ∀ body rest ts bn, f ((batchSegmentKindAdvanceTimestamp :: body) :: rest) ts bn =
      f rest (advanceBy ts body) bn)
    (block : ∀ body rest ts bn, f ((batchSegmentKindAdvanceL1BlockNumber :: body) :: rest) ts bn =
      f rest ts (advanceBy bn body))
    (read : Nat) (rest : List Bytes) (ts bn : UInt64) :
    f (skip read rest ts bn).rest (skip read rest ts bn).timestamp (skip read rest ts bn).blockNumber =
      f rest ts bn := by
  induction rest generalizing ts bn with
  | nil => rfl
  | cons seg rest ih =>
    cases seg with
    | nil => exact (ih ts bn).trans (empty rest ts bn).symm
    | cons kind body =>
      unfold skip
      by_cases isTimestamp : kind = batchSegmentKindAdvanceTimestamp
      · subst isTimestamp
        exact (ih _ _).trans (timestamp body rest ts bn).symm
      · rw [if_neg isTimestamp]
        by_cases isBlock : kind = batchSegmentKindAdvanceL1BlockNumber
        · subst isBlock
          exact (ih _ _).trans (block body rest ts bn).symm
        · rw [if_neg isBlock]

end Walk

/-- The feed is between two batches, or within one. -/
inductive Feed where
  | between (batches : List SequencerInboxBatch) (read : Nat)
  | within (batch : SequencerInboxBatch) (later : List SequencerInboxBatch)
      (seq : SequencerMessage) (walk : Walk)

namespace Feed

/-- After a segment was read: the next batch if nothing is left in this one. -/
def afterSegment (batch : SequencerInboxBatch) (later : List SequencerInboxBatch)
    (seq : SequencerMessage) (walk : Walk) : Feed :=
  if walk.finished seq then between later seq.afterDelayedMessages else within batch later seq walk

def popWithin [Externals] (readDelayedInbox : Nat → Except Error L1IncomingMessage)
    (batch : SequencerInboxBatch) (later : List SequencerInboxBatch) (seq : SequencerMessage)
    (walk : Walk) : EStateM.Result Error Feed (Option MessageWithMetadataAndBlockInfo) :=
  match segmentMessage seq (some batch.blockHash) readDelayedInbox walk.skipped.timestamp
    walk.skipped.blockNumber walk.delayedRead walk.skipped.segment with
  | .error panic => .error panic (.within batch later seq walk.skipped)
  | .ok (result, read) => Outcome.lift result (afterSegment batch later seq (walk.skipped.next read))

def pop [Externals] (readDelayedInbox : Nat → Except Error L1IncomingMessage) :
    Feed → EStateM.Result Error Feed (Option MessageWithMetadataAndBlockInfo)
  | between [] read => .ok none (between [] read)
  | between (batch :: later) read =>
    match parseSequencerMessage batch.serialized with
    | .error e => .error e (between (batch :: later) read)
    | .ok seq => popWithin readDelayedInbox batch later seq ⟨seq.segments, 0, 0, read⟩
  | within batch later seq walk => popWithin readDelayedInbox batch later seq walk

end Feed

/-- Where the cached segment number stands relative to what is left to read:
in front of it, on the submessage just read, or past the end. -/
inductive Position (segments : List Bytes) (num pos sub : Nat) : List Bytes → Prop where
  | front : sub = pos → Position segments num pos sub (segments.drop num)
  | onSubmessage : segments.drop num = seg :: rest → isSubmessage seg → pos = sub + 1 →
      Position segments num pos sub rest
  | past : segments.length ≤ num → Position segments num pos sub []

/-- The multiplexer state that stands for a feed over the given delayed inbox. -/
inductive Tracks (readDelayedInbox : Nat → Except Error L1IncomingMessage) (mux : InboxMultiplexer) :
    Feed → Prop where
  | between {batches : List SequencerInboxBatch} {read : Nat} :
      mux.backend.readDelayedInbox = readDelayedInbox → mux.cachedMsg = none →
      mux.backend.batches.drop mux.backend.batchIdx = batches → mux.delayedMessagesRead = read →
      mux.backend.posWithin = 0 → mux.cachedSegmentNum = 0 → mux.cachedSegmentTimestamp = 0 →
      mux.cachedSegmentBlockNumber = 0 → mux.cachedSubmessageNumber = 0 →
      Tracks readDelayedInbox mux (.between batches read)
  | within {batch : SequencerInboxBatch} {later : List SequencerInboxBatch}
      {seq : SequencerMessage} {walk : Walk} :
      mux.backend.readDelayedInbox = readDelayedInbox → mux.cachedMsg = some seq →
      mux.cachedBatchHash = some batch.blockHash →
      mux.backend.batches.drop mux.backend.batchIdx = batch :: later →
      mux.delayedMessagesRead = walk.delayedRead →
      mux.cachedSegmentTimestamp = walk.timestamp →
      mux.cachedSegmentBlockNumber = walk.blockNumber →
      Position seq.segments mux.cachedSegmentNum mux.backend.posWithin mux.cachedSubmessageNumber
        walk.rest → Tracks readDelayedInbox mux (.within batch later seq walk)

variable {readDelayedInbox : Nat → Except Error L1IncomingMessage}

theorem new_tracks (batches : List SequencerInboxBatch) (read : Nat) :
    Tracks readDelayedInbox (.new ⟨batches, 0, 0, readDelayedInbox⟩ read) (.between batches read) :=
  .between rfl rfl rfl rfl rfl rfl rfl rfl rfl

/-- With the submessage count at its target, the loop does what `skip` does. -/
theorem scanSegments_skip [Externals] (read target : Nat) (rest : List Bytes) (cur : SegmentCursor)
    (level : cur.submessageNumber = target) :
    ∃ k, (Walk.skip read rest cur.timestamp cur.blockNumber).rest = rest.drop k ∧
      scanSegments target rest cur = ⟨cur.segmentNum + k,
        (Walk.skip read rest cur.timestamp cur.blockNumber).timestamp,
        (Walk.skip read rest cur.timestamp cur.blockNumber).blockNumber, target⟩ := by
  induction rest generalizing cur with
  | nil =>
    subst level
    exact ⟨0, rfl, rfl⟩
  | cons seg rest ih =>
    cases seg with
    | nil =>
      obtain ⟨k, same, scanned⟩ := ih { cur with segmentNum := cur.segmentNum + 1 } level
      refine ⟨k + 1, same, ?_⟩
      simpa only [scanSegments, Walk.skip, Nat.add_assoc, Nat.add_comm 1 k] using scanned
    | cons kind body =>
      by_cases isTimestamp : kind = batchSegmentKindAdvanceTimestamp
      · obtain ⟨k, same, scanned⟩ := ih { cur with
          segmentNum := cur.segmentNum + 1, timestamp := advanceBy cur.timestamp body } level
        refine ⟨k + 1, ?_, ?_⟩
        · simpa only [Walk.skip, if_pos isTimestamp, List.drop_succ_cons] using same
        · simpa only [scanSegments, Walk.skip, if_pos isTimestamp, Nat.add_assoc,
            Nat.add_comm 1 k] using scanned
      · by_cases isBlock : kind = batchSegmentKindAdvanceL1BlockNumber
        · obtain ⟨k, same, scanned⟩ := ih { cur with
            segmentNum := cur.segmentNum + 1, blockNumber := advanceBy cur.blockNumber body } level
          refine ⟨k + 1, ?_, ?_⟩
          · simpa only [Walk.skip, if_neg isTimestamp, if_pos isBlock, List.drop_succ_cons] using same
          · simpa only [scanSegments, Walk.skip, if_neg isTimestamp, if_pos isBlock, Nat.add_assoc,
              Nat.add_comm 1 k] using scanned
        · refine ⟨0, ?_, ?_⟩
          · simp only [Walk.skip, if_neg isTimestamp, if_neg isBlock, List.drop_zero]
          · have stays : ¬ cur.submessageNumber < target := by omega
            simp only [scanSegments, Walk.skip, if_neg isTimestamp, if_neg isBlock, if_neg stays,
              Nat.add_zero]
            rw [← level]

/-- The loop brings the cursor to what is left after skipping, in any position. -/
theorem position_scan [Externals] {segments rest : List Bytes} {num pos sub : Nat} {ts bn : UInt64}
    (read : Nat) (position : Position segments num pos sub rest) :
    ∃ num' sub', scanSegments pos (segments.drop num) ⟨num, ts, bn, sub⟩ =
        ⟨num', (Walk.skip read rest ts bn).timestamp, (Walk.skip read rest ts bn).blockNumber, sub'⟩ ∧
      segments.drop num' = (Walk.skip read rest ts bn).rest ∧
      (sub' = pos ∨ segments.length ≤ num') := by
  cases position with
  | front level =>
    obtain ⟨k, same, scanned⟩ := scanSegments_skip read pos (segments.drop num) ⟨num, ts, bn, sub⟩ level
    refine ⟨num + k, pos, scanned, ?_, .inl rfl⟩
    rw [same, List.drop_drop]
  | @onSubmessage seg _ drop submessage level =>
    cases seg with
    | nil => contradiction
    | cons kind body =>
      simp only [isSubmessage, Bool.and_eq_true, decide_eq_true_eq] at submessage
      have behind : sub < pos := by omega
      have once : scanSegments pos (segments.drop num) ⟨num, ts, bn, sub⟩ =
          scanSegments pos rest ⟨num + 1, ts, bn, sub + 1⟩ := by
        simp only [drop, scanSegments, if_neg submessage.1, if_neg submessage.2, if_pos behind]
      obtain ⟨k, same, scanned⟩ :=
        scanSegments_skip read pos rest ⟨num + 1, ts, bn, sub + 1⟩ level.symm
      refine ⟨num + 1 + k, pos, once.trans scanned, ?_, .inl rfl⟩
      have tail : segments.drop (num + 1) = rest := by
        rw [← List.tail_drop, drop, List.tail_cons]
      rw [same, ← tail, List.drop_drop]
  | past bound =>
    have empty : segments.drop num = [] := List.drop_eq_nil_of_le bound
    exact ⟨num, sub, by rw [empty]; rfl, empty, .inr bound⟩

/-- The submessage that a cursor reaches, and the position after it. -/
theorem position_next [Externals] {segments rest : List Bytes} {num pos sub : Nat} {ts bn : UInt64}
    (read : Nat) (reached : segments.drop num = (Walk.skip read rest ts bn).rest)
    (level : sub = pos ∨ segments.length ≤ num) :
    Position segments num (pos + 1) sub (Walk.skip read rest ts bn).rest.tail := by
  obtain ⟨k, same, stop⟩ := Walk.skip_rest read rest ts bn
  rw [← same] at stop
  rcases stop with empty | ⟨seg, tail, drop, submessage⟩
  · rw [empty, List.tail_nil]
    rw [empty] at reached
    exact .past (List.drop_eq_nil_iff.mp reached)
  · rw [drop, List.tail_cons]
    rw [drop] at reached
    rcases level with level | past
    · exact .onSubmessage reached submessage (by omega)
    · rw [List.drop_eq_nil_of_le past] at reached
      contradiction

/-- Equal results, with states that stand for each other. -/
def ResultTracks (readDelayedInbox : Nat → Except Error L1IncomingMessage) :
    EStateM.Result Error InboxMultiplexer α → EStateM.Result Error Feed α → Prop
  | .ok a mux, .ok b feed => a = b ∧ Tracks readDelayedInbox mux feed
  | .error e mux, .error e' feed => e = e' ∧ Tracks readDelayedInbox mux feed
  | _, _ => False

/-- The look-ahead over the cached segments sees what is left after this one. -/
theorem isCachedSegmentLast_eq {mux : InboxMultiplexer} {seq : SequencerMessage} {walk : Walk}
    (cached : mux.cachedMsg = some seq) (delayed : mux.delayedMessagesRead = walk.delayedRead)
    (rest : seq.segments.drop (mux.cachedSegmentNum + 1) = walk.rest) :
    mux.isCachedSegmentLast = walk.finished seq := by
  simp only [InboxMultiplexer.isCachedSegmentLast, cached, delayed, rest, Walk.finished]

/-- After a segment the multiplexer moves on as the feed does. -/
theorem advance_refines [Externals] {mux : InboxMultiplexer} {batch : SequencerInboxBatch}
    {later : List SequencerInboxBatch} {seq : SequencerMessage} {walk : Walk}
    (inbox : mux.backend.readDelayedInbox = readDelayedInbox) (cached : mux.cachedMsg = some seq)
    (hash : mux.cachedBatchHash = some batch.blockHash)
    (batches : mux.backend.batches.drop mux.backend.batchIdx = batch :: later)
    (delayed : mux.delayedMessagesRead = walk.delayedRead) (ts : mux.cachedSegmentTimestamp = walk.timestamp)
    (bn : mux.cachedSegmentBlockNumber = walk.blockNumber)
    (tail : seq.segments.drop (mux.cachedSegmentNum + 1) = walk.rest)
    (next : Position seq.segments mux.cachedSegmentNum (mux.backend.posWithin + 1) mux.cachedSubmessageNumber
      walk.rest) :
    Tracks readDelayedInbox mux.advance (Feed.afterSegment batch later seq walk) := by
  unfold InboxMultiplexer.advance Feed.afterSegment
  rw [isCachedSegmentLast_eq cached delayed tail]
  split
  · have bound : mux.backend.batchIdx < mux.backend.batches.length := by
      by_contra past
      rw [List.drop_eq_nil_of_le (by omega)] at batches
      contradiction
    have remaining : mux.backend.batches.drop (mux.backend.batchIdx + 1) = later := by
      rw [← List.tail_drop, batches, List.tail_cons]
    have moved : mux.advanceSeqMsg.backend =
        { mux.backend with posWithin := 0, batchIdx := mux.backend.batchIdx + 1 } := by
      exact if_pos bound
    refine .between ?_ rfl ?_ ?_ ?_ rfl rfl rfl rfl
    · simpa only [moved] using inbox
    · simpa only [moved] using remaining
    · simp only [InboxMultiplexer.advanceSeqMsg, cached, Option.map_some, Option.getD_some]
    · rw [moved]
  · exact .within inbox cached hash batches delayed ts bn next

/-- The multiplexer on a loaded batch refines the feed within it. -/
theorem popWithin_refines [Externals] {mux : InboxMultiplexer} {batch : SequencerInboxBatch}
    {later : List SequencerInboxBatch} {seq : SequencerMessage} {walk : Walk}
    (tracks : Tracks readDelayedInbox mux (.within batch later seq walk)) :
    ResultTracks readDelayedInbox
      (match mux.getNextMsg with
        | .error panic mux => .error panic mux
        | .ok (.error e) mux => .error e mux.advance
        | .ok (.ok msg) mux => .ok msg mux.advance)
      (Feed.popWithin readDelayedInbox batch later seq walk) := by
  cases tracks with
  | within inbox cached hash batches delayed ts bn position =>
  obtain ⟨num, sub, scanned, reached, level⟩ := position_scan walk.delayedRead position
  have next := position_next walk.delayedRead reached level
  have segment : (seq.segments[num]?).getD [batchSegmentKindDelayedMessages] =
      walk.skipped.segment := by
    rw [Walk.segment, Walk.skipped, ← reached, List.headD_eq_head?_getD, List.head?_drop]
  have tail : seq.segments.drop (num + 1) = walk.skipped.rest.tail := by
    rw [Walk.skipped, ← reached, List.tail_drop]
  have here : Position seq.segments num mux.backend.posWithin sub walk.skipped.rest := by
    rw [Walk.skipped, ← reached]
    rcases level with level | past
    · exact .front level
    · rw [List.drop_eq_nil_of_le past]
      exact .past past
  -- the state after the segment has been read, before the position moves on
  let stepped (read : Nat) : InboxMultiplexer := { mux with
    delayedMessagesRead := read
    cachedSegmentNum := num
    cachedSegmentTimestamp := walk.skipped.timestamp
    cachedSegmentBlockNumber := walk.skipped.blockNumber
    cachedSubmessageNumber := sub }
  have advanced (read : Nat) : Tracks readDelayedInbox (stepped read).advance
      (Feed.afterSegment batch later seq (walk.skipped.next read)) :=
    advance_refines inbox cached hash batches rfl rfl rfl tail next
  cases segmented : segmentMessage seq (some batch.blockHash) readDelayedInbox
    walk.skipped.timestamp walk.skipped.blockNumber walk.delayedRead walk.skipped.segment with
  | error panic =>
    have given : mux.getNextMsg = .error panic (stepped walk.delayedRead) := by
      rw [Walk.skipped] at segmented
      simp only [InboxMultiplexer.getNextMsg, cached, hash, inbox, ts, bn, delayed, scanned, segment,
        segmented, stepped, Walk.skipped]
    have unread : walk.delayedRead = walk.skipped.delayedRead := (Walk.skip_delayedRead ..).symm
    simp only [given, Feed.popWithin, segmented]
    exact ⟨rfl, .within inbox cached hash batches unread rfl rfl here⟩
  | ok outcome =>
    obtain ⟨result, read⟩ := outcome
    have given : mux.getNextMsg = .ok result (stepped read) := by
      rw [Walk.skipped] at segmented
      simp only [InboxMultiplexer.getNextMsg, cached, hash, inbox, ts, bn, delayed, scanned, segment,
        segmented, stepped, Walk.skipped]
    simp only [given, Feed.popWithin, segmented]
    cases result with
    | error e => exact ⟨rfl, advanced read⟩
    | ok msg => exact ⟨rfl, advanced read⟩

/-- One `pop` of the multiplexer is one `pop` of the feed it stands for. -/
theorem pop_refines [Externals] {mux : InboxMultiplexer} {feed : Feed}
    (tracks : Tracks readDelayedInbox mux feed) :
    ResultTracks readDelayedInbox mux.pop (feed.pop readDelayedInbox) := by
  have open_batch := tracks
  cases tracks with
  | @between batches read inbox cached drop delayed pos num ts bn sub =>
    have current : mux.backend.currentBatch = batches.head? := by
      rw [InboxBackend.currentBatch, ← drop, List.head?_drop]
    cases batches with
    | nil =>
      simp only [InboxMultiplexer.pop, InboxMultiplexer.loadMsg, cached,
        InboxBackend.peekSequencerInbox, current, List.head?_nil, Feed.pop]
      exact ⟨rfl, open_batch⟩
    | cons batch later =>
      simp only [InboxMultiplexer.pop, InboxMultiplexer.loadMsg, cached,
        InboxBackend.peekSequencerInbox, current, List.head?_cons, Feed.pop]
      cases parsed : parseSequencerMessage batch.serialized with
      | error e => exact ⟨rfl, open_batch⟩
      | ok seq =>
        apply popWithin_refines
        refine .within inbox rfl rfl drop delayed ts bn ?_
        have front : Position seq.segments 0 0 0 (seq.segments.drop 0) := .front rfl
        simpa only [num, pos, sub, List.drop_zero] using front
  | within inbox cached hash drop delayed ts bn position =>
    simp only [InboxMultiplexer.pop, InboxMultiplexer.loadMsg, cached, Feed.pop]
    exact popWithin_refines open_batch

namespace Feed

def drain [Externals] (readDelayedInbox : Nat → Except Error L1IncomingMessage) :
    Nat → Feed → Except Error (List MessageWithMetadataAndBlockInfo)
  | 0, _ => .error .outOfFuel
  | fuel + 1, feed =>
    match feed.pop readDelayedInbox with
    | .error e _ => .error e
    | .ok none _ => .ok []
    | .ok (some m) feed => do
      let out ← drain readDelayedInbox fuel feed
      return m :: out

/-- The most messages that one batch can give. -/
def batchSteps : Nat := segmentCap + 2 + 2 ^ 64

/-- A bound on the messages still to come. -/
def steps : Feed → Nat
  | between batches _ => batches.length * batchSteps
  | within _ later seq walk =>
      walk.rest.length + (seq.afterDelayedMessages - walk.delayedRead) + 1 +
        later.length * batchSteps

end Feed

/-- Draining the multiplexer is draining the feed it stands for. -/
theorem drain_refines [Externals] {mux : InboxMultiplexer} {feed : Feed} (fuel : Nat)
    (tracks : Tracks readDelayedInbox mux feed) :
    mux.drain fuel = feed.drain readDelayedInbox fuel := by
  induction fuel generalizing mux feed with
  | zero => rfl
  | succ fuel ih =>
    have popped := pop_refines tracks
    unfold InboxMultiplexer.drain Feed.drain
    revert popped
    cases mux.pop with
    | error e mux' =>
      cases feed.pop readDelayedInbox with
      | error e' feed' =>
        rintro ⟨rfl, _⟩
        rfl
      | ok b feed' => exact False.elim
    | ok a mux' =>
      cases feed.pop readDelayedInbox with
      | error e' feed' => exact False.elim
      | ok b feed' =>
        rintro ⟨rfl, tracks⟩
        cases a with
        | none => rfl
        | some m => simp only [ih tracks]

/-- A segment read never takes the delayed count back. -/
theorem segmentMessage_read [Externals] {seq : SequencerMessage} {hash : Option B256}
    {ts bn : UInt64} {read read' : Nat} {seg : Bytes}
    {result : Except Error (Option MessageWithMetadataAndBlockInfo)}
    (emitted : segmentMessage seq hash readDelayedInbox ts bn read seg = .ok (result, read')) :
    read' = read ∨ (read < seq.afterDelayedMessages ∧ read' = read + 1) := by
  cases seg with
  | nil =>
    cases emitted
    exact .inl rfl
  | cons kind body =>
    simp only [segmentMessage] at emitted
    split at emitted
    · split at emitted
      · cases emitted
        exact .inl rfl
      · simp only [bind, Except.bind] at emitted
        split at emitted
        · contradiction
        · split at emitted
          · contradiction
          · cases emitted
            exact .inl rfl
    · split at emitted
      · split at emitted
        · cases emitted
          exact .inl rfl
        · rename_i pending
          split at emitted
          · cases emitted
            exact .inl rfl
          · cases emitted
            exact .inr ⟨by omega, rfl⟩
      · cases emitted
        exact .inl rfl

/-- Past the last segment only the pending delayed messages are left. -/
theorem segmentMessage_virtual [Externals] {seq : SequencerMessage} {hash : Option B256}
    {ts bn : UInt64} {read read' : Nat}
    {result : Except Error (Option MessageWithMetadataAndBlockInfo)}
    (emitted : segmentMessage seq hash readDelayedInbox ts bn read
      [batchSegmentKindDelayedMessages] = .ok (result, read')) :
    (seq.afterDelayedMessages ≤ read ∧ read' = read) ∨
      (read < seq.afterDelayedMessages ∧ read' = read + 1) ∨
      (read < seq.afterDelayedMessages ∧ ∃ e, readDelayedInbox read = .error e ∧ result = .error e) := by
  rw [segmentMessage_delayed] at emitted
  split at emitted
  · cases emitted
    exact .inl ⟨‹_›, rfl⟩
  · rename_i pending
    split at emitted
    · rename_i e missing
      cases emitted
      exact .inr (.inr ⟨by omega, e, missing, rfl⟩)
    · cases emitted
      exact .inr (.inl ⟨by omega, rfl⟩)

/-- The result of one segment decides the result of the `pop`. -/
theorem popWithin_eq [Externals] {batch : SequencerInboxBatch} (later : List SequencerInboxBatch)
    {seq : SequencerMessage} {walk : Walk}
    {result : Except Error (Option MessageWithMetadataAndBlockInfo)} {read : Nat}
    (emitted : segmentMessage seq (some batch.blockHash) readDelayedInbox walk.skipped.timestamp
      walk.skipped.blockNumber walk.delayedRead walk.skipped.segment = .ok (result, read)) :
    (Feed.within batch later seq walk).pop readDelayedInbox =
      Outcome.lift result (Feed.afterSegment batch later seq (walk.skipped.next read)) := by
  simp only [Feed.pop, Feed.popWithin, emitted]

/-- A `pop` within a batch moves on, unless it waits for a missing delayed message
at the end of the batch. -/
theorem afterSegment_steps [Externals] {batch : SequencerInboxBatch}
    (later : List SequencerInboxBatch) {seq : SequencerMessage} {walk : Walk} {read : Nat}
    {result : Except Error (Option MessageWithMetadataAndBlockInfo)}
    (emitted : segmentMessage seq (some batch.blockHash) readDelayedInbox walk.skipped.timestamp
      walk.skipped.blockNumber walk.delayedRead walk.skipped.segment = .ok (result, read)) :
    (Feed.afterSegment batch later seq (walk.skipped.next read)).steps <
        (Feed.within batch later seq walk).steps ∨
      (walk.skipped.rest = [] ∧ walk.delayedRead < seq.afterDelayedMessages ∧
        ∃ e, readDelayedInbox walk.delayedRead = .error e ∧ result = .error e) := by
  have shorter : walk.skipped.rest.length ≤ walk.rest.length := walk.skipped_suffix.length_le
  unfold Feed.afterSegment
  split
  · left
    simp only [Feed.steps]
    omega
  · rename_i unfinished
    have moved := segmentMessage_read emitted
    simp only [Feed.steps, Walk.next, List.length_tail]
    cases left : walk.skipped.rest with
    | cons seg tail =>
      left
      rw [left] at shorter
      simp only [List.length_cons] at shorter ⊢
      omega
    | nil =>
      have virtual : walk.skipped.segment = [batchSegmentKindDelayedMessages] := Walk.segment_nil left
      have pending : read < seq.afterDelayedMessages := by
        simpa [Walk.finished_iff, Walk.next, left] using unfinished
      rw [virtual] at emitted
      rcases segmentMessage_virtual emitted with ⟨done, _⟩ | ⟨_, advanced⟩ | ⟨waits, missing⟩
      · omega
      · left
        simp only [List.length_nil]
        omega
      · exact .inr ⟨rfl, waits, missing⟩

theorem popWithin_steps [Externals] {batch : SequencerInboxBatch}
    {later : List SequencerInboxBatch} {seq : SequencerMessage} {walk : Walk} {feed : Feed}
    {m : MessageWithMetadataAndBlockInfo}
    (popped : Feed.popWithin readDelayedInbox batch later seq walk = .ok (some m) feed) :
    feed.steps < (Feed.within batch later seq walk).steps := by
  unfold Feed.popWithin at popped
  split at popped
  · contradiction
  · rename_i result read emitted
    obtain ⟨shown, rfl⟩ := Outcome.lift_eq_ok.mp popped
    rcases afterSegment_steps later emitted with fewer | ⟨_, _, e, _, failed⟩
    · exact fewer
    · rw [failed] at shown
      contradiction

theorem steps_of_parse [Externals] {data : Bytes} {seq : SequencerMessage}
    (parsed : parseSequencerMessage data = .ok seq) :
    seq.segments.length + seq.afterDelayedMessages + 1 ≤ Feed.batchSteps := by
  obtain ⟨_, segments, decoded, rfl⟩ := parseSequencerMessage_eq_ok.mp parsed
  have capped := parseSegments_length decoded
  have word := u64beAt_lt data 32
  calc segments.length + u64beAt data 32 + 1
      ≤ (segmentCap + 1) + 2 ^ 64 + 1 := by gcongr
    _ = Feed.batchSteps := by
      unfold Feed.batchSteps
      ring

theorem pop_steps [Externals] {feed feed' : Feed} {m : MessageWithMetadataAndBlockInfo}
    (popped : feed.pop readDelayedInbox = .ok (some m) feed') : feed'.steps < feed.steps := by
  cases feed with
  | between batches read =>
    cases batches with
    | nil => simp [Feed.pop] at popped
    | cons batch later =>
      simp only [Feed.pop] at popped
      split at popped
      · contradiction
      · rename_i seq parsed
        have fits := steps_of_parse parsed
        have fewer := popWithin_steps popped
        simp only [Feed.steps, List.length_cons, Nat.add_mul, Nat.one_mul] at fewer ⊢
        omega
  | within batch later seq walk => exact popWithin_steps popped

/-- The drain loop ends by itself: more iterations change nothing. -/
theorem drain_stable [Externals] {feed : Feed} {fuel fuel' : Nat} (enough : feed.steps < fuel)
    (enough' : feed.steps < fuel') :
    feed.drain readDelayedInbox fuel = feed.drain readDelayedInbox fuel' := by
  induction fuel generalizing feed fuel' with
  | zero => omega
  | succ fuel ih =>
    obtain ⟨fuel', rfl⟩ : ∃ n, fuel' = n + 1 := ⟨fuel' - 1, by omega⟩
    unfold Feed.drain
    cases popped : feed.pop readDelayedInbox with
    | error e feed' => rfl
    | ok msg feed' =>
      cases msg with
      | none => rfl
      | some m =>
        have fewer := pop_steps popped
        have same := @ih feed' fuel' (by omega) (by omega)
        simp only [same]

end NitroRs
