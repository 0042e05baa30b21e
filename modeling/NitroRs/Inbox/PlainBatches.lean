import NitroRs.Inbox.Emission

/-! Batches of L2 segments and pending delayed messages: what they emit, unless the
multiplexer fails on them, is what the tracker counts. -/
namespace NitroRs

section
variable [Externals] {readDelayedInbox : Nat → Except Error L1IncomingMessage} {seq : SequencerMessage}

/-- L2 segments and pending delayed messages, and at least one of them. -/
structure PlainSegments (seq : SequencerMessage) (segments : List Bytes) (read : Nat) : Prop where
  kinds : segments.all keepsOpen = true
  pending : segments.countP isDelayedSegment ≤ seq.afterDelayedMessages - read
  some : read < seq.afterDelayedMessages ∨ segments ≠ []

/-- Batches of such segments, with delayed counts that do not decrease. -/
def PlainBatches : List SequencerInboxBatch → Nat → Prop
  | [], _ => True
  | b :: later, read => ∃ seq, parseSequencerMessage b.serialized = .ok seq ∧
      seq.afterDelayedMessages = b.afterDelayedCount ∧ read ≤ b.afterDelayedCount ∧
      PlainSegments seq seq.segments read ∧ PlainBatches later b.afterDelayedCount

namespace Feed

def Plain : Feed → Prop
  | between batches read => PlainBatches batches read
  | within _ later seq walk => PlainSegments seq walk.rest walk.delayedRead ∧
      PlainBatches later seq.afterDelayedMessages

/-- The messages that are still to come. -/
def owed : Feed → Nat
  | between batches read => countedMessages batches read
  | within _ later seq walk => walk.rest.countP InboxTracker.isL2Segment +
      (seq.afterDelayedMessages - walk.delayedRead) + countedMessages later seq.afterDelayedMessages

omit [Externals] in
theorem keepsOpen_kinds (seg : Bytes) :
    (keepsOpen seg = true ↔ InboxTracker.isL2Segment seg = true ∨ isDelayedSegment seg = true) ∧
      (InboxTracker.isL2Segment seg = true → isDelayedSegment seg = false) := by
  cases seg with
  | nil => simp [keepsOpen, InboxTracker.isL2Segment, isDelayedSegment]
  | cons kind body =>
    simp only [keepsOpen, InboxTracker.isL2Segment, isDelayedSegment, Bool.or_eq_true,
      decide_eq_true_eq, decide_eq_false_iff_not, true_and]
    rintro (rfl | rfl) <;> decide

theorem skipped_plain {walk : Walk} (kinds : walk.rest.all keepsOpen = true) : walk.skipped = walk := by
  obtain ⟨rest, ts, bn, read⟩ := walk
  rw [Walk.skipped]
  cases rest with
  | nil => rfl
  | cons seg rest =>
    have first := (List.all_cons ▸ kinds : (keepsOpen seg && rest.all keepsOpen) = true)
    rw [Bool.and_eq_true] at first
    cases seg with
    | nil => exact absurd first.1 (by decide)
    | cons kind body =>
      rw [Walk.skip, if_neg, if_neg]
      · rintro rfl
        exact Bool.false_ne_true first.1
      · rintro rfl
        exact Bool.false_ne_true first.1

/-- Behind a segment the batch goes on or is closed, with one message less to come. -/
theorem afterSegment_plain (b : SequencerInboxBatch) {later : List SequencerInboxBatch} (walk : Walk)
    (kinds : walk.rest.all keepsOpen = true)
    (pending : walk.rest.countP isDelayedSegment ≤ seq.afterDelayedMessages - walk.delayedRead)
    (batches : PlainBatches later seq.afterDelayedMessages) :
    (afterSegment b later seq walk).Plain ∧ (afterSegment b later seq walk).owed =
      (within b later seq walk).owed := by
  rw [afterSegment]
  split
  · rename_i finished
    obtain ⟨drained, closed⟩ := Walk.finished_iff.mp finished
    have empty : walk.rest = [] := by
      cases rest : walk.rest with
      | nil => rfl
      | cons seg tail =>
        rw [rest, List.any_cons, Bool.or_eq_false_iff] at closed
        rw [rest, List.all_cons, closed.1] at kinds
        contradiction
    refine ⟨batches, ?_⟩
    rw [owed, owed, empty, List.countP_nil]
    omega
  · rename_i unfinished
    refine ⟨⟨⟨kinds, pending, ?_⟩, batches⟩, rfl⟩
    by_contra nothing
    rw [not_or, not_not] at nothing
    exact unfinished (Walk.finished_iff.mpr ⟨not_lt.mp nothing.1, by rw [nothing.2]; rfl⟩)

theorem segmentMessage_pending (hash : Option B256) (ts bn : UInt64) {read : Nat}
    (below : read < seq.afterDelayedMessages) (body : Bytes) :
    (∃ e, segmentMessage seq hash readDelayedInbox ts bn read
        (batchSegmentKindDelayedMessages :: body) = .ok (.error e, read)) ∨
      ∃ m, segmentMessage seq hash readDelayedInbox ts bn read
        (batchSegmentKindDelayedMessages :: body) = .ok (.ok (some m), read + 1) := by
  rw [segmentMessage_delayed, if_neg (not_le.mpr below)]
  cases readDelayedInbox read with
  | error e => exact .inl ⟨e, rfl⟩
  | ok m => exact .inr ⟨_, rfl⟩

variable (readDelayedInbox) in
/-- The segment read next fails, or gives one of the messages that are to come. -/
theorem plain_segment (hash : Option B256) (ts bn : UInt64) {rest : List Bytes} {read : Nat}
    (segments : PlainSegments seq rest read) :
    (∃ panic, segmentMessage seq hash readDelayedInbox ts bn read
      (rest.headD [batchSegmentKindDelayedMessages]) = .error panic) ∨
    (∃ e, segmentMessage seq hash readDelayedInbox ts bn read
      (rest.headD [batchSegmentKindDelayedMessages]) = .ok (.error e, read)) ∨
    ∃ m read', segmentMessage seq hash readDelayedInbox ts bn read
        (rest.headD [batchSegmentKindDelayedMessages]) = .ok (.ok (some m), read') ∧
      rest.tail.all keepsOpen = true ∧
      rest.tail.countP isDelayedSegment ≤ seq.afterDelayedMessages - read' ∧
      rest.countP InboxTracker.isL2Segment + (seq.afterDelayedMessages - read) =
        rest.tail.countP InboxTracker.isL2Segment + (seq.afterDelayedMessages - read') + 1 := by
  obtain ⟨kinds, pending, some⟩ := segments
  cases rest with
  | nil =>
    have below : read < seq.afterDelayedMessages := some.resolve_right fun other => other rfl
    rcases segmentMessage_pending hash ts bn below [] with failed | ⟨m, given⟩
    · exact .inr (.inl failed)
    · refine .inr (.inr ⟨m, read + 1, given, rfl, Nat.zero_le _, ?_⟩)
      simp only [List.tail_nil, List.countP_nil]
      omega
  | cons seg tail =>
    rw [List.all_cons, Bool.and_eq_true] at kinds
    rw [List.countP_cons] at pending
    simp only [List.headD_cons, List.tail_cons, List.countP_cons]
    obtain ⟨opens, apart⟩ := keepsOpen_kinds seg
    rcases opens.mp kinds.1 with isL2 | isDelayed
    · have other := apart isL2
      rw [other] at pending
      rcases Answers.submessage_kinds seq hash readDelayedInbox ts bn read
          (Answers.isSubmessage_of_keepsOpen kinds.1) with
        ⟨_, _, _, ⟨_, m, given⟩ | ⟨_, panics⟩⟩ | ⟨_, _, _, failed⟩ | ⟨_, _, delayed, _⟩ |
        ⟨notReadable, whole, _, _⟩
      · exact .inr (.inr ⟨m, read, given, kinds.2, by simpa using pending, by rw [if_pos isL2]; omega⟩)
      · exact .inl panics
      · exact .inr (.inl ⟨_, failed⟩)
      · rw [other] at delayed
        contradiction
      · rw [isReadableL2, isL2, Bool.true_and] at notReadable
        rw [isBrokenL2, isL2, Bool.true_and] at whole
        cases decoded : l2Payload (seg.headD 0) seg.tail with
        | none =>
          rw [decoded] at whole
          contradiction
        | some payload =>
          rw [decoded] at notReadable
          contradiction
    · have other : InboxTracker.isL2Segment seg = false := by
        by_contra isL2
        rw [apart (by simpa using isL2)] at isDelayed
        contradiction
      rw [if_pos isDelayed] at pending
      have below : read < seq.afterDelayedMessages := by omega
      cases seg with
      | nil => contradiction
      | cons kind body =>
        obtain rfl : kind = batchSegmentKindDelayedMessages := by simpa [isDelayedSegment] using isDelayed
        rcases segmentMessage_pending hash ts bn below body with failed | ⟨m, given⟩
        · exact .inr (.inl failed)
        · refine .inr (.inr ⟨m, read + 1, given, kinds.2, by omega, ?_⟩)
          rw [other, if_neg Bool.false_ne_true]
          omega

theorem plain_within (b : SequencerInboxBatch) (later : List SequencerInboxBatch) (walk : Walk)
    (segments : PlainSegments seq walk.rest walk.delayedRead)
    (batches : PlainBatches later seq.afterDelayedMessages) :
    (∃ e feed', (within b later seq walk).pop readDelayedInbox = .error e feed') ∨
    ∃ m feed', (within b later seq walk).pop readDelayedInbox = .ok (some m) feed' ∧ feed'.Plain ∧
      (within b later seq walk).owed = feed'.owed + 1 := by
  have here := skipped_plain segments.kinds
  have popped {result : Except Error (Option MessageWithMetadataAndBlockInfo)} {read : Nat}
      (emitted : segmentMessage seq (some b.blockHash) readDelayedInbox walk.timestamp
        walk.blockNumber walk.delayedRead walk.segment = .ok (result, read)) :
      (within b later seq walk).pop readDelayedInbox =
        Outcome.lift result (afterSegment b later seq (walk.next read)) := by
    have given : segmentMessage seq (some b.blockHash) readDelayedInbox walk.skipped.timestamp
        walk.skipped.blockNumber walk.delayedRead walk.skipped.segment = .ok (result, read) := by
      rw [here]
      exact emitted
    have popped := popWithin_eq later given
    rwa [here] at popped
  rcases plain_segment readDelayedInbox (some b.blockHash) walk.timestamp walk.blockNumber
      segments with ⟨panic, panics⟩ | ⟨e, failed⟩ | ⟨m, read, given, kinds, pending, owes⟩
  · refine .inl ⟨panic, within b later seq walk, ?_⟩
    simp only [pop, popWithin, here, Walk.segment, panics]
  · exact .inl ⟨e, _, popped failed⟩
  · obtain ⟨plain, same⟩ := afterSegment_plain b (walk.next read) kinds pending batches
    refine .inr ⟨m, _, popped given, plain, ?_⟩
    rw [same, owed, owed, owes, Walk.next]
    dsimp only
    omega

/-- The next message, unless there is none or the multiplexer fails. -/
theorem plain_pop {feed : Feed} (plain : feed.Plain) : (∃ read, feed = between [] read) ∨
    (∃ e feed', feed.pop readDelayedInbox = .error e feed') ∨
    ∃ m feed', feed.pop readDelayedInbox = .ok (some m) feed' ∧ feed'.Plain ∧
      feed.owed = feed'.owed + 1 := by
  cases feed with
  | within b later seq walk => exact .inr (plain_within b later walk plain.1 plain.2)
  | between batches read =>
    cases batches with
    | nil => exact .inl ⟨read, rfl⟩
    | cons b later =>
      obtain ⟨seq, parsed, header, _, segments, batches⟩ := plain
      rw [← header] at batches
      rw [pop_between later read parsed]
      have count : (between (b :: later) read).owed =
          (within b later seq ⟨seq.segments, 0, 0, read⟩).owed := by
        rw [owed, owed, countedMessages, parsed, header]
      rw [count]
      exact .inr (plain_within b later ⟨seq.segments, 0, 0, read⟩ segments batches)

/-- Either the stream fails, or it gives all the messages that are to come. -/
theorem plain_drain {feed : Feed} {fuel : Nat} {out : List MessageWithMetadataAndBlockInfo}
    (plain : feed.Plain) (given : feed.drain readDelayedInbox fuel = .ok out) : out.length = feed.owed := by
  induction fuel generalizing feed out with
  | zero => contradiction
  | succ fuel ih =>
    rw [drain] at given
    rcases @plain_pop _ readDelayedInbox feed plain with
      ⟨read, rfl⟩ | ⟨e, feed', failed⟩ | ⟨m, feed', popped, plain', owes⟩
    · cases given
      rfl
    · rw [failed] at given
      contradiction
    · rw [popped] at given
      dsimp only at given
      cases rest : feed'.drain readDelayedInbox fuel with
      | error e =>
        rw [rest] at given
        contradiction
      | ok out' =>
        rw [rest] at given
        cases given
        rw [List.length_cons, ih plain' rest, owes]

end Feed

variable {batches : List SequencerInboxBatch} {read : Nat}

theorem streamBatches_plain {db : Db} {out : List MessageWithMetadataAndBlockInfo}
    (plain : PlainBatches batches read)
    (given : InboxTracker.streamBatches db batches read = .ok out) :
    out.length = countedMessages batches read := by
  rw [streamBatches_eq] at given
  have whole : (Feed.between batches read).Plain := plain
  exact Feed.plain_drain whole given

omit [Externals] in
/-- A batch is counted with at least one message. -/
theorem PlainSegments.counted {segments : List Bytes} (plain : PlainSegments seq segments read) :
    0 < segments.countP InboxTracker.isL2Segment + (seq.afterDelayedMessages - read) := by
  obtain ⟨kinds, pending, below | some⟩ := plain
  · omega
  · obtain ⟨seg, tail, rfl⟩ := List.exists_cons_of_ne_nil some
    rw [List.all_cons, Bool.and_eq_true] at kinds
    rw [List.countP_cons] at pending ⊢
    rcases (Feed.keepsOpen_kinds seg).1.mp kinds.1 with isL2 | isDelayed
    · rw [if_pos isL2]
      omega
    · rw [if_pos isDelayed] at pending
      omega

end

end NitroRs
