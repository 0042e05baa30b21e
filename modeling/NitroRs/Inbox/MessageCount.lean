import NitroRs.Codecs
import NitroRs.Inbox.Answers
import NitroRs.Inbox.EndOfStream
import NitroRs.Inbox.LedgerSteps

/-! The message count of a batch, twice: the tracker's closed formula over the
segment kinds, and the messages that the multiplexer gives. -/
namespace NitroRs
open KeyValue Outcome

/-- From some pop on, the multiplexer has given that many messages. -/
def InboxMultiplexer.Yields [Externals] (mux : InboxMultiplexer) (count : Nat) : Prop :=
  ∃ n, ∀ k, n ≤ k → (mux.messages k).length = count

/-- An L2 segment whose payload decompresses. -/
def isReadableL2 [Externals] (seg : Bytes) : Bool :=
  InboxTracker.isL2Segment seg && (l2Payload (seg.headD 0) seg.tail).isSome

/-- An L2 segment that the tracker counts and the multiplexer cannot read. -/
def isBrokenL2 [Externals] (seg : Bytes) : Bool :=
  InboxTracker.isL2Segment seg && (l2Payload (seg.headD 0) seg.tail).isNone

/-- No message of the batch makes `clamp` panic. -/
def Clamps [Externals] (seq : SequencerMessage) : Prop :=
  BoundsOrdered seq ∨ seq.segments.countP isReadableL2 = 0

/-- When a batch gives as many messages as the tracker counts for it. All pending
delayed messages are there. If nothing panics, the batch is not empty and its
delayed segments exceed the pending messages by the broken L2 segments; else the
delayed segments in front of the panic make up for everything behind it. -/
def Counted [Externals] (readDelayedInbox : Nat → Except Error L1IncomingMessage)
    (seq : SequencerMessage) (read : Nat) : Prop :=
  Available readDelayedInbox read seq.afterDelayedMessages ∧
    ((Clamps seq ∧ (read < seq.afterDelayedMessages ∨ seq.segments.any isSubmessage = true) ∧
        seq.segments.countP isDelayedSegment - (seq.afterDelayedMessages - read) =
          seq.segments.countP isBrokenL2) ∨
      (¬ Clamps seq ∧ (seq.segments.takeWhile (!isReadableL2 ·)).countP isDelayedSegment =
        seq.segments.countP InboxTracker.isL2Segment + (seq.afterDelayedMessages - read)))

section Counting
namespace Answers
variable [Externals] {seq : SequencerMessage} {hash : Option B256}
  {readDelayedInbox : Nat → Except Error L1IncomingMessage}

omit [Externals] in
theorem countP_pending {n read : Nat} (available : Available readDelayedInbox read (read + n)) :
    (pending readDelayedInbox n read).countP isMessage = n := by
  induction n generalizing read with
  | zero => rfl
  | succ n ih =>
    obtain ⟨m, stored⟩ := available read le_rfl (by omega)
    have later : Available readDelayedInbox (read + 1) (read + 1 + n) :=
      (available_next_iff stored).mpr (by rwa [Nat.add_right_comm])
    rw [pending, stored, List.countP_cons, ih later]
    rfl

omit [Externals] in
theorem countP_pending_lt {n read : Nat} (missing : ¬ Available readDelayedInbox read (read + n)) :
    (pending readDelayedInbox n read).countP isMessage < n := by
  induction n generalizing read with
  | zero => exact absurd (fun i low high => by omega) missing
  | succ n ih =>
    rw [pending]
    cases stored : readDelayedInbox read with
    | error e => exact Nat.succ_pos n
    | ok m =>
      have later : ¬ Available readDelayedInbox (read + 1) (read + 1 + n) := by
        rwa [available_next_iff stored, Nat.add_right_comm]
      have fewer := ih later
      rw [List.countP_cons]
      change _ + 1 < _
      omega

/-- With the bounds in the wrong order a readable L2 segment panics. -/
theorem segmentMessage_panics {kind : UInt8} {body payload : Bytes}
    (readDelayedInbox : Nat → Except Error L1IncomingMessage) (ts bn : UInt64) (read : Nat)
    (isL2 : kind = batchSegmentKindL2Message ∨ kind = batchSegmentKindL2MessageBrotli)
    (decoded : l2Payload kind body = some payload) (unordered : ¬ BoundsOrdered seq) :
    ∃ panic, segmentMessage seq hash readDelayedInbox ts bn read (kind :: body) = .error panic := by
  rw [l2Payload] at decoded
  simp only [segmentMessage, if_pos isL2, decoded, clamp]
  by_cases blocks : seq.minL1Block ≤ seq.maxL1Block
  · have timestamps : ¬ seq.minTimestamp ≤ seq.maxTimestamp := fun timestamps =>
      unordered ⟨timestamps, blocks⟩
    simp [blocks, timestamps, bind, Except.bind]
  · simp [blocks, bind, Except.bind]

/-- What a submessage gives, by its kind. -/
theorem submessage_kinds {seg : Bytes} (seq : SequencerMessage) (hash : Option B256)
    (readDelayedInbox : Nat → Except Error L1IncomingMessage) (ts bn : UInt64) (read : Nat)
    (submessage : isSubmessage seg = true) :
    (isReadableL2 seg = true ∧ isBrokenL2 seg = false ∧ isDelayedSegment seg = false ∧
      ((BoundsOrdered seq ∧ ∃ m, segmentMessage seq hash readDelayedInbox ts bn read seg =
          .ok (.ok (some m), read)) ∨
        (¬ BoundsOrdered seq ∧ ∃ panic, segmentMessage seq hash readDelayedInbox ts bn read seg =
          .error panic))) ∨
    (isReadableL2 seg = false ∧ isBrokenL2 seg = true ∧ isDelayedSegment seg = false ∧
      segmentMessage seq hash readDelayedInbox ts bn read seg = .ok (.error .brotli, read)) ∨
    (isReadableL2 seg = false ∧ isBrokenL2 seg = false ∧ isDelayedSegment seg = true ∧
      segmentMessage seq hash readDelayedInbox ts bn read seg =
        segmentMessage seq hash readDelayedInbox ts bn read [batchSegmentKindDelayedMessages]) ∨
    (isReadableL2 seg = false ∧ isBrokenL2 seg = false ∧ isDelayedSegment seg = false ∧
      segmentMessage seq hash readDelayedInbox ts bn read seg = .ok (.ok none, read)) := by
  cases seg with
  | nil => contradiction
  | cons kind body =>
    simp only [isSubmessage, Bool.and_eq_true, decide_eq_true_eq] at submessage
    simp only [isReadableL2, isBrokenL2, InboxTracker.isL2Segment, isDelayedSegment, List.headD_cons,
      List.tail_cons]
    by_cases isL2 : kind = batchSegmentKindL2Message ∨ kind = batchSegmentKindL2MessageBrotli
    · have notDelayed : kind ≠ batchSegmentKindDelayedMessages := by
        rcases isL2 with rfl | rfl <;> decide
      have l2 : (decide (kind = batchSegmentKindL2Message) ||
          decide (kind = batchSegmentKindL2MessageBrotli)) = true := by simpa using isL2
      cases decoded : l2Payload kind body with
      | none =>
        refine .inr (.inl ⟨by simp, by simp [l2], by simp [notDelayed], ?_⟩)
        rw [l2Payload] at decoded
        simp only [segmentMessage, if_pos isL2, decoded]
      | some payload =>
        refine .inl ⟨by simp [l2], by simp, by simp [notDelayed], ?_⟩
        by_cases ordered : BoundsOrdered seq
        · refine .inl ⟨ordered, ⟨⟨l2Message seq ts bn payload, read⟩, hash, none⟩, ?_⟩
          rw [segmentMessage_l2 seq hash _ ts bn read body ordered isL2, decoded]
        · exact .inr ⟨ordered, segmentMessage_panics _ ts bn read isL2 decoded ordered⟩
    · have notL2 : (decide (kind = batchSegmentKindL2Message) ||
          decide (kind = batchSegmentKindL2MessageBrotli)) = false := by simpa using isL2
      simp only [notL2, Bool.false_and]
      by_cases delayed : kind = batchSegmentKindDelayedMessages
      · subst delayed
        exact .inr (.inr (.inl ⟨trivial, trivial, by decide, rfl⟩))
      · refine .inr (.inr (.inr ⟨trivial, trivial, by simpa using delayed, ?_⟩))
        rw [segmentMessage, if_neg isL2, if_neg delayed]

/-- A segment that is no submessage is none of the counted kinds. -/
theorem skipped_kinds {seg : Bytes} (skipped : isSubmessage seg = false) :
    isReadableL2 seg = false ∧ isBrokenL2 seg = false ∧ isDelayedSegment seg = false ∧
      InboxTracker.isL2Segment seg = false := by
  cases seg with
  | nil => exact ⟨rfl, rfl, rfl, rfl⟩
  | cons kind body =>
    simp only [isSubmessage, Bool.and_eq_false_iff, decide_eq_false_iff_not, not_not] at skipped
    rcases skipped with rfl | rfl <;> exact ⟨rfl, rfl, rfl, rfl⟩

/-- The tracker counts the readable and the broken L2 segments. -/
theorem countP_isL2Segment (segs : List Bytes) : segs.countP InboxTracker.isL2Segment =
    segs.countP isReadableL2 + segs.countP isBrokenL2 := by
  induction segs with
  | nil => rfl
  | cons seg rest ih =>
    rw [List.countP_cons, List.countP_cons, List.countP_cons, ih, isReadableL2, isBrokenL2]
    cases InboxTracker.isL2Segment seg <;> cases l2Payload (seg.headD 0) seg.tail <;> simp <;> omega

/-- Without a panic, and with all pending delayed messages there, every readable
L2 segment and every delayed one gives a message, and so does what is pending. -/
theorem countP_segments (segs : List Bytes) (ts bn : UInt64) {read : Nat}
    (available : Available readDelayedInbox read seq.afterDelayedMessages)
    (clamps : BoundsOrdered seq ∨ segs.countP isReadableL2 = 0) :
    (segments seq hash readDelayedInbox segs ts bn read).countP isMessage =
      segs.countP isReadableL2 +
        max (segs.countP isDelayedSegment) (seq.afterDelayedMessages - read) := by
  induction segs generalizing ts bn read with
  | nil =>
    have reach : seq.afterDelayedMessages ≤ read + (seq.afterDelayedMessages - read) := by omega
    rw [segments, countP_pending]
    · simp
    · intro i low high
      exact available i low (by omega)
  | cons seg rest ih =>
    rw [List.countP_cons] at clamps
    cases submessage : isSubmessage seg with
    | false =>
      obtain ⟨notReadable, _, notDelayed, _⟩ := skipped_kinds submessage
      obtain ⟨ts', bn', same⟩ := segments_skipped rest ts bn read submessage
      rw [same, ih ts' bn' available (clamps.imp_right (by omega)), List.countP_cons,
        List.countP_cons, notReadable, notDelayed]
      simp
    | true =>
      rw [segments_submessage submessage, List.countP_cons, List.countP_cons]
      have later := clamps.imp_right fun none : _ = 0 =>
        show rest.countP isReadableL2 = 0 by omega
      rcases submessage_kinds seq hash readDelayedInbox ts bn read submessage with
        ⟨readable, _, notDelayed, outcome⟩ | ⟨notReadable, _, notDelayed, failed⟩ |
        ⟨notReadable, _, delayed, virtual⟩ | ⟨notReadable, _, notDelayed, none⟩
      · rcases outcome with ⟨_, m, given⟩ | ⟨unordered, _⟩
        · simp only [given, List.countP_cons, ih ts bn available later, readable, notDelayed]
          simp [isMessage]
          omega
        · have none := clamps.resolve_left unordered
          rw [readable] at none
          simp at none
      · simp only [failed, List.countP_cons, ih ts bn available later, notReadable, notDelayed]
        simp [isMessage]
      · rw [virtual, segmentMessage_delayed]
        by_cases pending : read < seq.afterDelayedMessages
        · obtain ⟨m, stored⟩ := available read le_rfl pending
          have available' := (available_next_iff stored).mpr available
          simp only [if_neg (not_le.mpr pending), stored, List.countP_cons,
            ih ts bn available' later, notReadable, delayed]
          simp [isMessage]
          omega
        · simp only [if_pos (not_lt.mp pending), List.countP_cons, ih ts bn available later,
            notReadable, delayed]
          simp [isMessage]
          omega
      · simp only [none, List.countP_cons, ih ts bn available later, notReadable, notDelayed]
        simp [isMessage]

/-- A missing delayed message leaves the batch short of the tracker's count. -/
theorem countP_segments_lt (segs : List Bytes) (ts bn : UInt64) {read : Nat}
    (missing : ¬ Available readDelayedInbox read seq.afterDelayedMessages) :
    (segments seq hash readDelayedInbox segs ts bn read).countP isMessage <
      segs.countP InboxTracker.isL2Segment + (seq.afterDelayedMessages - read) := by
  induction segs generalizing ts bn read with
  | nil =>
    rw [segments, List.countP_nil, Nat.zero_add]
    apply countP_pending_lt
    intro available
    exact missing fun i low high => available i low (by omega)
  | cons seg rest ih =>
    cases submessage : isSubmessage seg with
    | false =>
      obtain ⟨_, _, _, notL2⟩ := skipped_kinds submessage
      obtain ⟨ts', bn', same⟩ := segments_skipped rest ts bn read submessage
      rw [same, List.countP_cons, notL2]
      simpa using ih ts' bn' missing
    | true =>
      rw [segments_submessage submessage, countP_isL2Segment, List.countP_cons, List.countP_cons]
      have pending : read < seq.afterDelayedMessages := by
        by_contra drained
        exact missing fun i low high => by omega
      have shorter (read : Nat) (missing : ¬ Available readDelayedInbox read seq.afterDelayedMessages) := by
        have := ih ts bn missing
        rwa [countP_isL2Segment] at this
      rcases submessage_kinds seq hash readDelayedInbox ts bn read submessage with
        ⟨readable, _, _, outcome⟩ | ⟨_, broken, _, failed⟩ | ⟨_, _, _, virtual⟩ | ⟨_, _, _, none⟩
      · rcases outcome with ⟨_, m, given⟩ | ⟨_, panic, panics⟩
        · have fewer := shorter read missing
          simp only [given, List.countP_cons, readable]
          simp only [isMessage, if_true]
          omega
        · simp only [panics, readable]
          simp [isMessage]
      · have fewer := shorter read missing
        simp only [failed, List.countP_cons, broken]
        simp only [isMessage, Bool.false_eq_true, if_false, if_true]
        omega
      · rw [virtual, segmentMessage_delayed, if_neg (not_le.mpr pending)]
        cases stored : readDelayedInbox read with
        | error e =>
          have fewer := shorter read missing
          simp only [List.countP_cons]
          simp only [isMessage, Bool.false_eq_true, if_false]
          omega
        | ok m =>
          have fewer := shorter (read + 1) (mt (available_next_iff stored).mp missing)
          simp only [List.countP_cons]
          simp only [isMessage, if_true]
          omega
      · have fewer := shorter read missing
        simp only [none, List.countP_cons]
        simp only [isMessage, Bool.false_eq_true, if_false]
        omega

/-- With the bounds in the wrong order the first readable L2 segment ends the batch. -/
theorem countP_segments_panic (segs : List Bytes) (ts bn : UInt64) {read : Nat}
    (available : Available readDelayedInbox read seq.afterDelayedMessages)
    (unordered : ¬ BoundsOrdered seq) (readable : segs.countP isReadableL2 ≠ 0) :
    (segments seq hash readDelayedInbox segs ts bn read).countP isMessage =
      (segs.takeWhile (!isReadableL2 ·)).countP isDelayedSegment := by
  induction segs generalizing ts bn read with
  | nil => exact absurd rfl readable
  | cons seg rest ih =>
    rw [List.countP_cons] at readable
    cases submessage : isSubmessage seg with
    | false =>
      obtain ⟨notReadable, _, notDelayed, _⟩ := skipped_kinds submessage
      obtain ⟨ts', bn', same⟩ := segments_skipped rest ts bn read submessage
      rw [notReadable] at readable
      rw [same, ih ts' bn' available readable, List.takeWhile_cons, notReadable]
      simp [notDelayed]
    | true =>
      rw [segments_submessage submessage, List.takeWhile_cons]
      rcases submessage_kinds seq hash readDelayedInbox ts bn read submessage with
        ⟨isReadable, _, _, outcome⟩ | ⟨notReadable, _, notDelayed, failed⟩ |
        ⟨notReadable, _, delayed, virtual⟩ | ⟨notReadable, _, notDelayed, none⟩
      · rcases outcome with ⟨ordered, _⟩ | ⟨_, panic, panics⟩
        · exact absurd ordered unordered
        · simp only [panics, isReadable]
          rfl
      · rw [notReadable] at readable ⊢
        simp only [failed, List.countP_cons, ih ts bn available readable, notDelayed, Bool.not_false,
          if_true]
        simp [isMessage]
      · rw [notReadable] at readable ⊢
        rw [virtual, segmentMessage_delayed]
        by_cases pending : read < seq.afterDelayedMessages
        · obtain ⟨m, stored⟩ := available read le_rfl pending
          have available' := (available_next_iff stored).mpr available
          simp only [if_neg (not_le.mpr pending), stored, List.countP_cons,
            ih ts bn available' readable, delayed, Bool.not_false, if_true]
          rfl
        · simp only [if_pos (not_lt.mp pending), List.countP_cons, ih ts bn available readable,
            delayed, Bool.not_false, if_true]
          rfl
      · rw [notReadable] at readable ⊢
        simp only [none, List.countP_cons, ih ts bn available readable, notDelayed, Bool.not_false,
          if_true]
        simp [isMessage]

/-- A batch gives the tracker's count of messages exactly when it is counted. -/
theorem countP_batch_iff (readDelayedInbox : Nat → Except Error L1IncomingMessage)
    (seq : SequencerMessage) (hash : Option B256) (read : Nat) :
    (batch seq hash readDelayedInbox read).countP isMessage =
        seq.segments.countP InboxTracker.isL2Segment + (seq.afterDelayedMessages - read) ↔
      Counted readDelayedInbox seq read := by
  by_cases idle : seq.afterDelayedMessages ≤ read ∧ seq.segments.any isSubmessage = false
  · obtain ⟨drained, silent⟩ := idle
    have none {p : Bytes → Bool} (counts : ∀ seg, isSubmessage seg = false → p seg = false) :
        seq.segments.countP p = 0 := by
      rw [List.countP_eq_zero]
      intro seg member holds
      have skipped : isSubmessage seg = false := by
        simpa using List.any_eq_false.mp silent seg member
      rw [counts seg skipped] at holds
      contradiction
    have noL2 := none fun seg skipped => (skipped_kinds skipped).2.2.2
    have noReadable := none fun seg skipped => (skipped_kinds skipped).1
    rw [batch, if_pos ⟨drained, silent⟩, noL2, Nat.sub_eq_zero_of_le drained]
    refine iff_of_false Nat.one_ne_zero ?_
    rintro ⟨_, ⟨_, some, _⟩ | ⟨panics, _⟩⟩
    · rw [silent] at some
      exact some.elim (by omega) (by decide)
    · exact panics (.inr noReadable)
  · rw [batch, if_neg idle]
    have some : read < seq.afterDelayedMessages ∨ seq.segments.any isSubmessage = true := by
      simpa [or_iff_not_imp_left] using idle
    by_cases available : Available readDelayedInbox read seq.afterDelayedMessages
    · by_cases clamps : Clamps seq
      · rw [countP_segments seq.segments 0 0 available clamps, countP_isL2Segment]
        simp only [Counted, available, clamps, some, true_and, not_true, false_and, or_false]
        omega
      · obtain ⟨unordered, readable⟩ := not_or.mp clamps
        rw [countP_segments_panic seq.segments 0 0 available unordered readable]
        simp only [Counted, available, clamps, true_and, false_and, not_false_eq_true, false_or]
    · have fewer := @countP_segments_lt _ seq hash _ seq.segments 0 0 read available
      refine iff_of_false (by omega) fun counted => available counted.1

end Answers

variable [Externals]

/-- The batch that a window consists of gives the messages of its answers. -/
theorem yields_iff {b : SequencerInboxBatch} {seq : SequencerMessage}
    (parsed : parseSequencerMessage b.serialized = .ok seq)
    (readDelayedInbox : Nat → Except Error L1IncomingMessage) (read count : Nat) :
    (InboxMultiplexer.new ⟨[b], 0, 0, readDelayedInbox⟩ read).Yields count ↔
      (Answers.batch seq (some b.blockHash) readDelayedInbox read).countP isMessage = count := by
  have given (k : Nat) (enough : (Feed.between [b] read).steps ≤ k) :
      ((InboxMultiplexer.new ⟨[b], 0, 0, readDelayedInbox⟩ read).messages k).length =
        (Answers.batch seq (some b.blockHash) readDelayedInbox read).countP isMessage := by
    have live : Answers.Live (.between [b] read) := le_rfl
    rw [messages_refines k (new_tracks [b] read), Answers.length_messages live (.inl enough)]
    simp only [Answers.ofFeed, parsed]
  constructor
  · rintro ⟨n, stable⟩
    rw [← given (max n (Feed.between [b] read).steps) (le_max_right _ _),
      stable _ (le_max_left _ _)]
  · rintro rfl
    exact ⟨_, given⟩

omit [Externals] in
/-- The loop stores each batch's metadata under its number. -/
theorem get_write_batchOps (db : Db) (last : BatchMetadata) (pos : Nat) (metas : List BatchMetadata)
    (i : Nat) : (db.write (InboxTracker.batchOps last (numberFrom pos metas))).get .sequencerBatchMeta i =
      if pos ≤ i ∧ i < pos + metas.length then metas[i - pos]? else db.get .sequencerBatchMeta i := by
  induction metas generalizing db last pos with
  | nil => simp [numberFrom, InboxTracker.batchOps]
  | cons m metas ih =>
    have index (s : Db) : (s.write (if last.delayedMessageCount < m.delayedMessageCount then
        [.put .delayedSequenced m.delayedMessageCount pos] else [])).get .sequencerBatchMeta i =
        s.get .sequencerBatchMeta i := by
      split
      · rw [Store.write_cons, Store.write_nil, Store.get_apply_put_of_ne _ _ _ (by decide)]
      · rfl
    rw [numberFrom, InboxTracker.batchOps, Store.write_append, ih, Store.write_cons, index,
      Store.get_apply_put]
    rcases Nat.lt_trichotomy i pos with below | rfl | above
    · simp only [Nat.not_le.mpr below, Nat.not_le.mpr (Nat.lt_succ_of_lt below), false_and, if_false,
        below.ne']
    · simp
    · obtain ⟨k, rfl⟩ : ∃ k, i = pos + 1 + k := ⟨i - (pos + 1), by omega⟩
      have shift : pos + 1 + k - pos = k + 1 := by omega
      have shift' : pos + 1 + k - (pos + 1) = k := by omega
      have apart : pos ≠ pos + 1 + k := by omega
      have range : pos ≤ pos + 1 + k ∧ pos + 1 + k < pos + (metas.length + 1) ↔
          pos + 1 ≤ pos + 1 + k ∧ pos + 1 + k < pos + 1 + metas.length := by omega
      simp only [shift, shift', List.getElem?_cons_succ, List.length_cons, range, if_neg apart]

/-- What a batch list that is accepted leaves in the metadata table, from any state. -/
theorem addSequencerBatches_eq_ok {t t' : InboxTracker} {first : SequencerInboxBatch}
    {rest : List SequencerInboxBatch}
    (accepted : InboxTracker.addSequencerBatches (first :: rest) t = .ok () t') :
    ∃ m t₀ metas, InboxTracker.previousMetadata first.sequenceNumber t = .ok m t₀ ∧
      InboxTracker.checkBatches t₀.db first.sequenceNumber m.accumulator (first :: rest) = .ok () ∧
      InboxTracker.describeBatches m (first :: rest) =
        .ok (numberFrom first.sequenceNumber metas) ∧
      t'.db.count .sequencerBatchCount = some (first.sequenceNumber + (first :: rest).length) ∧
      ∀ i m', metas[i]? = some m' →
        t'.db.get .sequencerBatchMeta (first.sequenceNumber + i) = some m' := by
  unfold InboxTracker.addSequencerBatches at accepted
  obtain ⟨m, t₀, previous, accepted⟩ := bind_eq_ok.mp accepted
  rw [bind_read] at accepted
  obtain ⟨_, t₁, check, accepted⟩ := bind_eq_ok.mp accepted
  obtain ⟨checked, rfl⟩ := lift_eq_ok.mp check
  obtain ⟨numbered, t₁, describe, accepted⟩ := bind_eq_ok.mp accepted
  obtain ⟨described, rfl⟩ := lift_eq_ok.mp describe
  obtain ⟨metas, rfl, _⟩ := describeBatches_eq_ok checked described
  obtain ⟨t₂, deleted, _⟩ := InboxTracker.deleteBatchMetadataStartingAt_spec
    (first.sequenceNumber + (first :: rest).length) t₀
  rw [bind_ok deleted, bind_ok (writeBatch_apply _ _), update_apply] at accepted
  cases accepted
  refine ⟨m, t₀, metas, previous, checked, described, ?_, ?_⟩
  · simp only [Store.write_append, Store.write_cons, Store.write_nil, Store.count_apply_setCount,
      if_true]
  intro i m' here
  have inside := (List.getElem?_eq_some_iff.mp here).1
  simp only [Store.write_append, Store.write_cons, Store.write_nil, Store.get_apply_setCount,
    get_write_batchOps]
  rw [if_pos ⟨by omega, by omega⟩, Nat.add_sub_cancel_left]
  exact here

/-- The metadata that a call finds in front of a batch, zero before batch 0. -/
def InboxTracker.metadataBefore (t : InboxTracker) : Nat → Option BatchMetadata
  | 0 => some .zero
  | n + 1 => t.metadataAt n

omit [Externals] in
theorem previousMetadata_eq_ok {t t₀ : InboxTracker} {pos : Nat} {m : BatchMetadata}
    (read : InboxTracker.previousMetadata pos t = .ok m t₀) : t.metadataBefore pos = some m ∧ t₀.db = t.db := by
  cases pos with
  | zero =>
    cases read
    exact ⟨rfl, rfl⟩
  | succ pos =>
    unfold InboxTracker.previousMetadata at read
    rw [if_pos (Nat.succ_pos pos), Nat.add_sub_cancel] at read
    rcases InboxTracker.getBatchMetadata_cases pos t with ⟨m', cache, here, found, _⟩ | ⟨_, failed⟩
    · rw [found] at read
      cases read
      exact ⟨here, rfl⟩
    · rw [failed] at read
      contradiction

/-- The recorded count of an accepted batch is the number of messages that the
multiplexer gives for it, exactly when the batch is counted. -/
theorem recorded_count_yields_iff {t t' : InboxTracker} {batches : List SequencerInboxBatch}
    (accepted : InboxTracker.addSequencerBatches batches t = .ok () t')
    (headers : ∀ b ∈ batches, ∀ seq, parseSequencerMessage b.serialized = .ok seq →
      seq.afterDelayedMessages = b.afterDelayedCount)
    {i : Nat} {b : SequencerInboxBatch} (here : batches[i]? = some b) :
    ∃ prev m seq, (if i = 0 then t.metadataBefore b.sequenceNumber else
        t'.db.get .sequencerBatchMeta (b.sequenceNumber - 1)) = some prev ∧
      t'.db.get .sequencerBatchMeta b.sequenceNumber = some m ∧
      parseSequencerMessage b.serialized = .ok seq ∧
      ((InboxMultiplexer.new ⟨[b], 0, 0, InboxTracker.getDelayedMessage t'.db⟩
          prev.delayedMessageCount).Yields (m.messageCount - prev.messageCount) ↔
        Counted (InboxTracker.getDelayedMessage t'.db) seq prev.delayedMessageCount) := by
  cases batches with
  | nil => simp at here
  | cons first rest =>
    obtain ⟨m₀, t₀, metas, previous, checked, described, _, stored⟩ :=
      addSequencerBatches_eq_ok accepted
    obtain ⟨ms, numbered, _, entries⟩ := describeBatches_eq_ok checked described
    obtain rfl := numberFrom_injective numbered
    obtain ⟨number, prev, seq, before, parsed, entry⟩ := entries i b here
    have header := headers b (List.mem_of_getElem? here) seq parsed
    refine ⟨prev, _, seq, ?_, number ▸ stored i _ entry, parsed, ?_⟩
    · cases i with
      | zero =>
        cases before
        rw [if_pos rfl, number]
        exact (previousMetadata_eq_ok previous).1
      | succ i =>
        have position : b.sequenceNumber - 1 = first.sequenceNumber + i := by omega
        rw [if_neg (Nat.succ_ne_zero i), position]
        exact stored i _ before
    · have count : (InboxTracker.batchMetadata prev b seq).messageCount - prev.messageCount =
          seq.segments.countP InboxTracker.isL2Segment +
            (seq.afterDelayedMessages - prev.delayedMessageCount) := by
        simp only [InboxTracker.batchMetadata, header]
        omega
      rw [count, yields_iff parsed]
      exact Answers.countP_batch_iff _ _ _ _

end Counting

section Samples
open Codecs

/-- A tracker that was just initialized. -/
def initialTracker : InboxTracker := final (InboxTracker.initializeTracker (.new .empty))

/-- The first batch with one L2 segment is counted as one message. -/
theorem l2_batch_yields_one : ∃ t', InboxTracker.addSequencerBatches [batch 0 0 [[0, 7]]]
      initialTracker = .ok () t' ∧
    (InboxMultiplexer.new ⟨[batch 0 0 [[0, 7]]], 0, 0, InboxTracker.getDelayedMessage t'.db⟩
      0).Yields 1 := by
  have parsed := parse_batch 0 (show 0 < 2 ^ 64 by decide)
    (show [[0, 7]].length ≤ segmentCap + 1 by decide)
  have accepted : ∃ t', InboxTracker.addSequencerBatches [batch 0 0 [[0, 7]]] initialTracker =
      .ok () t' ∧ t'.db.get .sequencerBatchMeta 0 = some ⟨.zero, 1, 0, 0⟩ := ⟨_, rfl, by decide +kernel⟩
  obtain ⟨t', accepted, recorded⟩ := accepted
  refine ⟨t', accepted, ?_⟩
  obtain ⟨prev, m, seq, before, stored, found, counts⟩ := recorded_count_yields_iff accepted (by
    intro b member seq found
    obtain rfl := List.mem_singleton.mp member
    cases parsed.symm.trans found
    rfl) (show [batch 0 0 [[0, 7]]][0]? = some (batch 0 0 [[0, 7]]) from rfl)
  cases before
  cases recorded.symm.trans stored
  cases parsed.symm.trans found
  exact counts.mpr ⟨fun i low high => absurd high (Nat.not_lt_zero i), .inl ⟨.inl ⟨by decide, by decide⟩,
    .inr rfl, rfl⟩⟩

/-- A batch without segments is counted as no message and gives one. -/
theorem empty_batch_miscounted : ∃ t', InboxTracker.addSequencerBatches [batch 0 0 []]
      initialTracker = .ok () t' ∧
    t'.db.get .sequencerBatchMeta 0 = some ⟨.zero, 0, 0, 0⟩ ∧
    ¬ (InboxMultiplexer.new ⟨[batch 0 0 []], 0, 0, InboxTracker.getDelayedMessage t'.db⟩
      0).Yields 0 := by
  have parsed := parse_batch 0 (show 0 < 2 ^ 64 by decide)
    (show ([] : List Bytes).length ≤ segmentCap + 1 by decide)
  refine ⟨_, rfl, by decide +kernel, ?_⟩
  rw [yields_iff parsed]
  exact Nat.one_ne_zero

end Samples

end NitroRs
