import NitroRs.Codecs
import NitroRs.Inbox.Feed

/-! Reference semantics of the inbox: the stream of messages as a fold over the
segments of each batch, and the proof that draining the multiplexer computes it. -/
namespace NitroRs

namespace Reference

def l2 (seq : SequencerMessage) (hash : Option B256) (timestamp blockNumber : UInt64) (read : Nat)
    (payload : Bytes) : MessageWithMetadataAndBlockInfo :=
  ⟨⟨⟨⟨3, .zero, clamped blockNumber seq.minL1Block seq.maxL1Block,
    clamped timestamp seq.minTimestamp seq.maxTimestamp, none, 0⟩, payload, none⟩, read⟩, hash, none⟩

def delayed (inbox : Nat → L1IncomingMessage) (i : Nat) : MessageWithMetadataAndBlockInfo :=
  ⟨⟨inbox i, i + 1⟩, none, none⟩

def invalid (seq : SequencerMessage) (hash : Option B256) : MessageWithMetadataAndBlockInfo :=
  ⟨⟨invalidMessage seq, seq.afterDelayedMessages⟩, hash, none⟩

/-- The messages of the segments from left to right, then those of the delayed
messages that are still pending. -/
def segments [Externals] (seq : SequencerMessage) (hash : Option B256)
    (inbox : Nat → L1IncomingMessage) :
    List Bytes → UInt64 → UInt64 → Nat → List MessageWithMetadataAndBlockInfo
  | [], _, _, read => (List.range' read (seq.afterDelayedMessages - read)).map (delayed inbox)
  | [] :: rest, timestamp, blockNumber, read => segments seq hash inbox rest timestamp blockNumber read
  | (kind :: body) :: rest, timestamp, blockNumber, read =>
      if kind = batchSegmentKindAdvanceTimestamp then
        segments seq hash inbox rest (advanceBy timestamp body) blockNumber read
      else if kind = batchSegmentKindAdvanceL1BlockNumber then
        segments seq hash inbox rest timestamp (advanceBy blockNumber body) read
      else if kind = batchSegmentKindL2Message then
        l2 seq hash timestamp blockNumber read body ::
          segments seq hash inbox rest timestamp blockNumber read
      else if kind = batchSegmentKindL2MessageBrotli then
        l2 seq hash timestamp blockNumber read ((brotliDecompress body).getD []) ::
          segments seq hash inbox rest timestamp blockNumber read
      else if kind = batchSegmentKindDelayedMessages then
        if read < seq.afterDelayedMessages then
          delayed inbox read :: segments seq hash inbox rest timestamp blockNumber (read + 1)
        else invalid seq hash :: segments seq hash inbox rest timestamp blockNumber read
      else segments seq hash inbox rest timestamp blockNumber read

/-- A batch without a message of its own gives one invalid message. -/
def batch [Externals] (seq : SequencerMessage) (hash : Option B256)
    (inbox : Nat → L1IncomingMessage) (read : Nat) : List MessageWithMetadataAndBlockInfo :=
  match segments seq hash inbox seq.segments 0 0 read with
  | [] => [invalid seq hash]
  | out => out

def stream [Externals] (inbox : Nat → L1IncomingMessage) :
    List SequencerInboxBatch → Nat → List MessageWithMetadataAndBlockInfo
  | [], _ => []
  | b :: later, read =>
    match parseSequencerMessage b.serialized with
    | .error _ => []
    | .ok seq => batch seq (some b.blockHash) inbox read ++ stream inbox later seq.afterDelayedMessages

/-- A nonempty segment of kind 0 to 4, decompressing if it is a brotli one. -/
def ReadableSegment [Externals] : Bytes → Prop
  | [] => True
  | kind :: body => kind ≤ batchSegmentKindAdvanceL1BlockNumber ∧
      (kind = batchSegmentKindL2MessageBrotli → (brotliDecompress body).isSome)

structure Readable [Externals] (seq : SequencerMessage) : Prop extends BoundsOrdered seq where
  segments : ∀ seg ∈ seq.segments, ReadableSegment seg

/-- Readable batches whose delayed counts do not decrease from `read` on. -/
def Admissible [Externals] : List SequencerInboxBatch → Nat → Prop
  | [], _ => True
  | b :: later, read => ∃ seq, parseSequencerMessage b.serialized = .ok seq ∧ Readable seq ∧
      read ≤ seq.afterDelayedMessages ∧ Admissible later seq.afterDelayedMessages

/-- The delayed count after the last batch. -/
def lastDelayed [Externals] : List SequencerInboxBatch → Nat → Nat
  | [], read => read
  | b :: later, read =>
    match parseSequencerMessage b.serialized with
    | .error _ => read
    | .ok seq => lastDelayed later seq.afterDelayedMessages

theorem segments_skip [Externals] (seq : SequencerMessage) (hash : Option B256)
    (inbox : Nat → L1IncomingMessage) (rest : List Bytes) (ts bn : UInt64) (read : Nat) :
    segments seq hash inbox (Walk.skip read rest ts bn).rest (Walk.skip read rest ts bn).timestamp
        (Walk.skip read rest ts bn).blockNumber read = segments seq hash inbox rest ts bn read :=
  Walk.skip_invariant (fun rest ts bn => segments seq hash inbox rest ts bn read) (fun _ _ _ => rfl)
    (fun _ _ _ _ => rfl) (fun _ _ _ _ => rfl) read rest ts bn

/-- Nothing more comes out of a batch exactly when the look-ahead closes it. -/
theorem segments_eq_nil [Externals] {seq : SequencerMessage} {hash : Option B256}
    {inbox : Nat → L1IncomingMessage} {rest : List Bytes} {ts bn : UInt64} {read : Nat} :
    segments seq hash inbox rest ts bn read = [] ↔
      seq.afterDelayedMessages ≤ read ∧ rest.any keepsOpen = false := by
  induction rest generalizing ts bn with
  | nil => simp [segments, Nat.sub_eq_zero_iff_le]
  | cons seg rest ih =>
    cases seg with
    | nil => simpa only [segments, List.any_cons, keepsOpen, Bool.false_or] using ih
    | cons kind body =>
      unfold segments
      split
      · rename_i isTimestamp
        have closed : keepsOpen (kind :: body) = false := by
          rw [isTimestamp]
          rfl
        simpa only [List.any_cons, closed, Bool.false_or] using ih
      · split
        · rename_i isBlock
          have closed : keepsOpen (kind :: body) = false := by
            rw [isBlock]
            rfl
          simpa only [List.any_cons, closed, Bool.false_or] using ih
        · split
          · rename_i isL2
            simp [isL2, keepsOpen]
          · split
            · rename_i isBrotli
              simp [isBrotli, keepsOpen]
            · split
              · rename_i isDelayed
                split <;> simp [isDelayed, keepsOpen]
              · rename_i notL2 notBrotli notDelayed
                simpa [keepsOpen, notL2, notBrotli, notDelayed] using ih

/-- What a batch still gives, from any point within it. -/
def remaining [Externals] (seq : SequencerMessage) (hash : Option B256)
    (inbox : Nat → L1IncomingMessage) (w : Walk) : List MessageWithMetadataAndBlockInfo :=
  match segments seq hash inbox w.rest w.timestamp w.blockNumber w.delayedRead with
  | [] => [invalid seq hash]
  | out => out

/-- What a feed still gives. -/
def ofFeed [Externals] (inbox : Nat → L1IncomingMessage) :
    Feed → List MessageWithMetadataAndBlockInfo
  | .between batches read => stream inbox batches read
  | .within batch later seq w =>
      remaining seq (some batch.blockHash) inbox w ++ stream inbox later seq.afterDelayedMessages

end Reference

open Reference

variable {readDelayedInbox : Nat → Except Error L1IncomingMessage} {inbox : Nat → L1IncomingMessage}

/-- The delayed inbox holds every message below a count. -/
def Holds (readDelayedInbox : Nat → Except Error L1IncomingMessage)
    (inbox : Nat → L1IncomingMessage) (count : Nat) : Prop :=
  ∀ i < count, readDelayedInbox i = .ok (inbox i)

/-- A submessage gives the next message of the reference. -/
theorem segmentMessage_reference [Externals] {seq : SequencerMessage} {hash : Option B256}
    {ts bn : UInt64} {read : Nat} {seg : Bytes} (tail : List Bytes) (readable : Readable seq)
    (segment : ReadableSegment seg) (submessage : isSubmessage seg)
    (held : Holds readDelayedInbox inbox seq.afterDelayedMessages) :
    ∃ m read', segmentMessage seq hash readDelayedInbox ts bn read seg = .ok (.ok (some m), read') ∧
      segments seq hash inbox (seg :: tail) ts bn read =
        m :: segments seq hash inbox tail ts bn read' := by
  cases seg with
  | nil => contradiction
  | cons kind body =>
    simp only [isSubmessage, Bool.and_eq_true, decide_eq_true_eq] at submessage
    obtain ⟨notTimestamp, notBlock⟩ := submessage
    obtain ⟨known, decompresses⟩ := segment
    simp only [segments, if_neg notTimestamp, if_neg notBlock]
    by_cases isL2 : kind = batchSegmentKindL2Message
    · subst isL2
      refine ⟨_, read, segmentMessage_l2 seq hash _ ts bn read body readable.toBoundsOrdered
        (.inl rfl), ?_⟩
      rw [if_pos rfl]
      rfl
    · by_cases isBrotli : kind = batchSegmentKindL2MessageBrotli
      · obtain ⟨payload, decoded⟩ := Option.isSome_iff_exists.mp (decompresses isBrotli)
        refine ⟨l2 seq hash ts bn read payload, read, ?_, ?_⟩
        · rw [segmentMessage_l2 seq hash _ ts bn read body readable.toBoundsOrdered (.inr isBrotli),
            l2Payload, if_pos isBrotli, decoded]
          rfl
        · rw [if_neg isL2, if_pos isBrotli, decoded]
          rfl
      · have isDelayed : kind = batchSegmentKindDelayedMessages := by
          have cases := known_kind known
          tauto
        subst isDelayed
        rw [if_neg isL2, if_neg isBrotli, if_pos rfl, segmentMessage_delayed]
        by_cases pending : read < seq.afterDelayedMessages
        · refine ⟨delayed inbox read, read + 1, ?_, if_pos pending⟩
          rw [if_neg (by omega), held read pending]
          rfl
        · exact ⟨invalid seq hash, read, if_pos (by omega), if_neg pending⟩

/-- The segment that a feed reads next, virtual or not, gives the next message of
the reference unless nothing is left. -/
theorem segment_reference [Externals] {seq : SequencerMessage} (hash : Option B256) {walk : Walk}
    (readable : Readable seq) (rest : ∀ seg ∈ walk.rest, ReadableSegment seg)
    (held : Holds readDelayedInbox inbox seq.afterDelayedMessages) :
    (∃ m read', segmentMessage seq hash readDelayedInbox walk.skipped.timestamp
        walk.skipped.blockNumber walk.delayedRead walk.skipped.segment = .ok (.ok (some m), read') ∧
      segments seq hash inbox walk.rest walk.timestamp walk.blockNumber walk.delayedRead =
        m :: segments seq hash inbox (walk.skipped.next read').rest walk.skipped.timestamp
          walk.skipped.blockNumber read') ∨
    (segmentMessage seq hash readDelayedInbox walk.skipped.timestamp walk.skipped.blockNumber
        walk.delayedRead walk.skipped.segment =
          .ok (.ok (some (invalid seq hash)), walk.delayedRead) ∧
      seq.afterDelayedMessages ≤ walk.delayedRead ∧ walk.skipped.rest = [] ∧
      segments seq hash inbox walk.rest walk.timestamp walk.blockNumber walk.delayedRead = []) := by
  rw [← segments_skip seq hash inbox walk.rest walk.timestamp walk.blockNumber]
  change (∃ m read', _ ∧ segments seq hash inbox walk.skipped.rest walk.skipped.timestamp
    walk.skipped.blockNumber walk.delayedRead = _) ∨ (_ ∧ _ ∧ _ ∧ segments seq hash inbox
    walk.skipped.rest walk.skipped.timestamp walk.skipped.blockNumber walk.delayedRead = [])
  rcases walk.skipped_stops with same | ⟨seg, tail, same, submessage⟩
  · have virtual : walk.skipped.segment = [batchSegmentKindDelayedMessages] := Walk.segment_nil same
    rw [virtual, segmentMessage_delayed]
    simp only [same, Walk.next, List.tail_nil, segments]
    by_cases pending : walk.delayedRead < seq.afterDelayedMessages
    · left
      refine ⟨delayed inbox walk.delayedRead, walk.delayedRead + 1, ?_, ?_⟩
      · rw [if_neg (by omega), held _ pending]
        rfl
      · have count : seq.afterDelayedMessages - walk.delayedRead =
            seq.afterDelayedMessages - (walk.delayedRead + 1) + 1 := by omega
        rw [count, List.range'_succ, List.map_cons]
    · right
      have done : seq.afterDelayedMessages - walk.delayedRead = 0 := by omega
      refine ⟨if_pos (by omega), by omega, trivial, ?_⟩
      rw [done]
      rfl
  · left
    have member : seg ∈ walk.rest := walk.skipped_suffix.mem (by rw [same]; exact List.mem_cons_self)
    have here : walk.skipped.segment = seg := Walk.segment_cons same
    rw [here]
    simp only [same, Walk.next, List.tail_cons]
    exact segmentMessage_reference tail readable (rest seg member) submessage held

theorem lastDelayed_le [Externals] {batches : List SequencerInboxBatch} {read : Nat}
    (admissible : Admissible batches read) : read ≤ lastDelayed batches read := by
  induction batches generalizing read with
  | nil => exact le_rfl
  | cons batch later ih =>
    obtain ⟨seq, parsed, _, grows, admissible⟩ := admissible
    simp only [lastDelayed, parsed]
    exact grows.trans (ih admissible)

/-- A feed over readable batches whose delayed messages are all there. -/
def Feed.Readable [Externals] (readDelayedInbox : Nat → Except Error L1IncomingMessage)
    (inbox : Nat → L1IncomingMessage) : Feed → Prop
  | .between batches read => Admissible batches read ∧
      Holds readDelayedInbox inbox (lastDelayed batches read)
  | .within _ later seq walk => Reference.Readable seq ∧
      (∀ seg ∈ walk.rest, ReadableSegment seg) ∧ Admissible later seq.afterDelayedMessages ∧
      Holds readDelayedInbox inbox (lastDelayed later seq.afterDelayedMessages)

/-- A `pop` within a batch gives the head of what the reference still gives. -/
theorem popWithin_reference [Externals] (batch : SequencerInboxBatch)
    {later : List SequencerInboxBatch} {seq : SequencerMessage} {walk : Walk}
    (readable : (Feed.within batch later seq walk).Readable readDelayedInbox inbox) :
    ∃ m feed', Feed.popWithin readDelayedInbox batch later seq walk = .ok (some m) feed' ∧
      feed'.Readable readDelayedInbox inbox ∧
      ofFeed inbox (.within batch later seq walk) = m :: ofFeed inbox feed' := by
  obtain ⟨bounds, rest, admissible, held⟩ := readable
  have reached : Holds readDelayedInbox inbox seq.afterDelayedMessages :=
    fun i below => held i (below.trans_le (lastDelayed_le admissible))
  rcases segment_reference (some batch.blockHash) bounds rest reached with
    ⟨m, read, emitted, next⟩ | ⟨emitted, drained, empty, next⟩
  · have tail : ∀ seg ∈ (walk.skipped.next read).rest, ReadableSegment seg := by
      intro seg member
      apply rest seg
      exact walk.skipped_suffix.mem (List.mem_of_mem_tail member)
    refine ⟨m, _, by rw [Feed.popWithin, emitted]; rfl, ?_⟩
    rw [Feed.afterSegment]
    by_cases closed : (walk.skipped.next read).finished seq
    · rw [if_pos closed]
      refine ⟨⟨admissible, held⟩, ?_⟩
      have nothing : segments seq (some batch.blockHash) inbox (walk.skipped.next read).rest
          walk.skipped.timestamp walk.skipped.blockNumber read = [] :=
        segments_eq_nil.mpr (Walk.finished_iff.mp closed)
      simp only [ofFeed, remaining, next, nothing, List.cons_append, List.nil_append]
    · rw [if_neg closed]
      refine ⟨⟨bounds, tail, admissible, held⟩, ?_⟩
      have more : segments seq (some batch.blockHash) inbox (walk.skipped.next read).rest
          walk.skipped.timestamp walk.skipped.blockNumber read ≠ [] := by
        intro nothing
        exact closed (Walk.finished_iff.mpr (segments_eq_nil.mp nothing))
      obtain ⟨m', out, later_out⟩ := List.exists_cons_of_ne_nil more
      simp only [ofFeed, remaining, Walk.next] at later_out ⊢
      simp only [next, Walk.next, later_out, List.cons_append]
  · have closed : (walk.skipped.next walk.delayedRead).finished seq := by
      simp [Walk.finished, Walk.next, empty, drained]
    refine ⟨invalid seq (some batch.blockHash), .between later seq.afterDelayedMessages, ?_,
      ⟨admissible, held⟩, ?_⟩
    · simp only [Feed.popWithin, emitted, Feed.afterSegment, if_pos closed]
      rfl
    · simp only [ofFeed, remaining, next, List.cons_append, List.nil_append]

theorem pop_reference [Externals] {feed : Feed}
    (readable : feed.Readable readDelayedInbox inbox) :
    match ofFeed inbox feed with
    | [] => ∃ feed', feed.pop readDelayedInbox = .ok none feed'
    | m :: out => ∃ feed', feed.pop readDelayedInbox = .ok (some m) feed' ∧
        feed'.Readable readDelayedInbox inbox ∧ ofFeed inbox feed' = out := by
  cases feed with
  | between batches read =>
    cases batches with
    | nil => exact ⟨_, rfl⟩
    | cons batch later =>
      obtain ⟨⟨seq, parsed, bounds, _, admissible⟩, held⟩ := readable
      simp only [lastDelayed, parsed] at held
      obtain ⟨m, feed', popped, readable, given⟩ :=
        popWithin_reference batch (show (Feed.within batch later seq ⟨seq.segments, 0, 0, read⟩).Readable
          readDelayedInbox inbox from ⟨bounds, bounds.segments, admissible, held⟩)
      have whole : ofFeed inbox (.between (batch :: later) read) = m :: ofFeed inbox feed' := by
        rw [← given]
        simp only [ofFeed, stream, parsed]
        rfl
      rw [whole]
      exact ⟨feed', by simp only [Feed.pop, parsed, popped], readable, rfl⟩
  | within batch later seq walk =>
    obtain ⟨m, feed', popped, readable, given⟩ := popWithin_reference batch readable
    rw [given]
    exact ⟨feed', popped, readable, rfl⟩

/-- The drain loop gives the stream of the reference. -/
theorem drain_reference [Externals] {feed : Feed} {fuel : Nat}
    (readable : feed.Readable readDelayedInbox inbox)
    (enough : (ofFeed inbox feed).length < fuel) :
    feed.drain readDelayedInbox fuel = .ok (ofFeed inbox feed) := by
  induction fuel generalizing feed with
  | zero => omega
  | succ fuel ih =>
    have next := pop_reference readable
    unfold Feed.drain
    cases given : ofFeed inbox feed with
    | nil =>
      rw [given] at next
      obtain ⟨feed', popped⟩ := next
      simp only [popped]
    | cons m out =>
      rw [given] at next enough
      obtain ⟨feed', popped, readable, rfl⟩ := next
      simp only [popped, ih readable (by simpa using enough)]
      rfl

/-- The delayed messages of a batch, in order and each exactly once. -/
theorem segments_delayed [Externals] {seq : SequencerMessage} (hash : B256) (rest : List Bytes)
    (ts bn : UInt64) {read : Nat} (bound : read ≤ seq.afterDelayedMessages) :
    (segments seq (some hash) inbox rest ts bn read).filter (·.blockHash.isNone) =
      (List.range' read (seq.afterDelayedMessages - read)).map (delayed inbox) := by
  induction rest generalizing ts bn read with
  | nil =>
    apply List.filter_eq_self.mpr
    intro m member
    obtain ⟨i, _, rfl⟩ := List.mem_map.mp member
    rfl
  | cons seg rest ih =>
    cases seg with
    | nil => exact ih _ _ bound
    | cons kind body =>
      unfold segments
      split
      · exact ih _ _ bound
      · split
        · exact ih _ _ bound
        · split
          · exact ih _ _ bound
          · split
            · exact ih _ _ bound
            · split
              · split
                · rename_i pending
                  have count : seq.afterDelayedMessages - read =
                      seq.afterDelayedMessages - (read + 1) + 1 := by omega
                  rw [count, List.range'_succ, List.map_cons, ← ih ts bn pending]
                  rfl
                · exact ih _ _ bound
              · exact ih _ _ bound

/-- So for the whole stream: no delayed message is lost or repeated at a batch boundary. -/
theorem stream_delayed [Externals] {batches : List SequencerInboxBatch} {read : Nat}
    (admissible : Admissible batches read) :
    (stream inbox batches read).filter (·.blockHash.isNone) =
      (List.range' read (lastDelayed batches read - read)).map (delayed inbox) := by
  induction batches generalizing read with
  | nil => simp [stream, lastDelayed]
  | cons b later ih =>
    obtain ⟨seq, parsed, _, grows, admissible⟩ := admissible
    have here : (Reference.batch seq (some b.blockHash) inbox read).filter (·.blockHash.isNone) =
        (List.range' read (seq.afterDelayedMessages - read)).map (delayed inbox) := by
      rw [← segments_delayed b.blockHash seq.segments 0 0 grows]
      unfold Reference.batch
      split
      · rename_i nothing
        rw [nothing]
        rfl
      · rfl
    have beyond := lastDelayed_le admissible
    have count : lastDelayed later seq.afterDelayedMessages - read =
        (seq.afterDelayedMessages - read) +
          (lastDelayed later seq.afterDelayedMessages - seq.afterDelayedMessages) := by omega
    have joined : read + (seq.afterDelayedMessages - read) = seq.afterDelayedMessages := by omega
    simp only [stream, lastDelayed, parsed, List.filter_append, here, ih admissible, count,
      ← List.range'_append_1, List.map_append, joined]

/-- The multiplexer implements the reference semantics. -/
theorem multiplexer_implements_reference [Externals] {batches : List SequencerInboxBatch} {read : Nat}
    (admissible : Admissible batches read)
    (held : Holds readDelayedInbox inbox (lastDelayed batches read)) :
    (∀ fuel, (stream inbox batches read).length < fuel →
      (InboxMultiplexer.new ⟨batches, 0, 0, readDelayedInbox⟩ read).drain fuel =
        .ok (stream inbox batches read)) ∧
    (stream inbox batches read).filter (·.blockHash.isNone) =
      (List.range' read (lastDelayed batches read - read)).map (delayed inbox) := by
  refine ⟨?_, stream_delayed admissible⟩
  intro fuel enough
  rw [drain_refines fuel (new_tracks batches read)]
  have readable : (Feed.between batches read).Readable readDelayedInbox inbox := ⟨admissible, held⟩
  exact drain_reference readable enough

section Samples
open Codecs

/-- A batch with one L2 segment that also reads one delayed message. -/
theorem l2_and_delayed_reference :
    (InboxMultiplexer.new ⟨[batch 0 1 [[0, 7]]], 0, 0,
        fun _ => .ok ⟨⟨3, .zero, 0, 0, none, 0⟩, [], none⟩⟩ 0).drain 3 =
      .ok (stream (fun _ => ⟨⟨3, .zero, 0, 0, none, 0⟩, [], none⟩) [batch 0 1 [[0, 7]]] 0) := by
  have parsed := parse_batch 0 (show 1 < 2 ^ 64 by decide)
    (show [[0, 7]].length ≤ segmentCap + 1 by decide)
  refine (multiplexer_implements_reference ?_ ?_).1 3 ?_
  · refine ⟨_, parsed, ⟨⟨by decide, by decide⟩, ?_⟩, by decide, trivial⟩
    intro seg member
    rw [List.mem_singleton.mp member]
    exact ⟨by decide, nofun⟩
  · exact fun _ _ => rfl
  · simp only [stream, parsed]
    decide

end Samples

end NitroRs
