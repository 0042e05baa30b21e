import NitroRs.Inbox.Ingest

/-! Whether a window that the tracker accepts is stored. The call answers with
success too when it skips the window or when the window gives no message. -/
namespace NitroRs
open KeyValue Outcome

/-- The first submessage of the batch is of a kind that gives no message. -/
def OpensUnknown [Externals] (b : SequencerInboxBatch) : Prop :=
  ∃ seq, parseSequencerMessage b.serialized = .ok seq ∧
    (seq.segments.find? isSubmessage).any isUnknown = true

section Drain
variable [Externals] {readDelayedInbox : Nat → Except Error L1IncomingMessage}

/-- Skipping stops at the first submessage. -/
theorem head_skip (read : Nat) (rest : List Bytes) (ts bn : UInt64) :
    (Walk.skip read rest ts bn).rest.head? = rest.find? isSubmessage := by
  have found := Walk.skip_invariant (fun rest _ _ => rest.find? isSubmessage) (fun _ _ _ => rfl)
    (fun _ _ _ _ => rfl) (fun _ _ _ _ => rfl) read rest ts bn
  rw [← found]
  obtain ⟨k, same, stop⟩ := Walk.skip_rest read rest ts bn
  rw [← same] at stop
  rcases stop with empty | ⟨seg, tail, front, submessage⟩
  · rw [empty]
    rfl
  · rw [front, List.head?_cons, List.find?_cons_of_pos submessage]

/-- A submessage answers with nothing exactly when its kind is unknown. -/
theorem segmentMessage_none_iff {seg : Bytes} (seq : SequencerMessage) (hash : Option B256)
    (ts bn : UInt64) (read : Nat) (submessage : isSubmessage seg = true) :
    (∃ read', segmentMessage seq hash readDelayedInbox ts bn read seg = .ok (.ok none, read')) ↔
      isUnknown seg = true := by
  have apart (counted : isReadableL2 seg = true ∨ isBrokenL2 seg = true ∨
      isDelayedSegment seg = true) : isUnknown seg = false := by
    cases seg with
    | nil => contradiction
    | cons kind body =>
      have known : kind = batchSegmentKindL2Message ∨ kind = batchSegmentKindL2MessageBrotli ∨
          kind = batchSegmentKindDelayedMessages := by
        rcases counted with l2 | l2 | delayed
        · simp only [isReadableL2, InboxTracker.isL2Segment, Bool.and_eq_true, Bool.or_eq_true,
            decide_eq_true_eq] at l2
          exact l2.1.imp_right .inl
        · simp only [isBrokenL2, InboxTracker.isL2Segment, Bool.and_eq_true, Bool.or_eq_true,
            decide_eq_true_eq] at l2
          exact l2.1.imp_right .inl
        · exact .inr (.inr (by simpa [isDelayedSegment] using delayed))
      rcases known with rfl | rfl | rfl <;> rfl
  rcases Answers.submessage_kinds seq hash readDelayedInbox ts bn read submessage with
    ⟨readable, _, _, ⟨_, m, given⟩ | ⟨_, panic, panics⟩⟩ | ⟨_, broken, _, failed⟩ |
    ⟨_, _, delayed, virtual⟩ | ⟨notReadable, notBroken, notDelayed, none⟩
  · simp [given, apart (.inl readable)]
  · simp [panics, apart (.inl readable)]
  · simp [failed, apart (.inr (.inl broken))]
  · rw [virtual, segmentMessage_delayed, apart (.inr (.inr delayed))]
    split
    · simp
    · cases readDelayedInbox read <;> simp
  · simp only [none, Except.ok.injEq, Prod.mk.injEq, true_and, exists_eq', true_iff]
    cases seg with
    | nil => contradiction
    | cons kind body =>
      by_contra known
      have low : kind ≤ batchSegmentKindAdvanceL1BlockNumber := by simpa [isUnknown] using known
      simp only [isSubmessage, Bool.and_eq_true, decide_eq_true_eq] at submessage
      rcases known_kind low with isL2 | isBrotli | isDelayed | isTimestamp | isBlock
      · subst isL2
        have l2 := Answers.countP_isL2Segment [batchSegmentKindL2Message :: body]
        simp [notReadable, notBroken, InboxTracker.isL2Segment] at l2
      · subst isBrotli
        have l2 := Answers.countP_isL2Segment [batchSegmentKindL2MessageBrotli :: body]
        simp [notReadable, notBroken, InboxTracker.isL2Segment] at l2
      · subst isDelayed
        simp [isDelayedSegment] at notDelayed
      · exact submessage.1 isTimestamp
      · exact submessage.2 isBlock

/-- The first `pop` of a window answers with nothing exactly when its first batch
starts with a segment of an unknown kind. -/
theorem first_pop_none_iff {b : SequencerInboxBatch} {seq : SequencerMessage}
    (later : List SequencerInboxBatch) (read : Nat)
    (parsed : parseSequencerMessage b.serialized = .ok seq) :
    (∃ feed, (Feed.between (b :: later) read).pop readDelayedInbox = .ok none feed) ↔
      OpensUnknown b := by
  have opened : (Feed.between (b :: later) read).pop readDelayedInbox =
      (Feed.within b later seq ⟨seq.segments, 0, 0, read⟩).pop readDelayedInbox := by
    simp only [Feed.pop, parsed]
  have unknown : OpensUnknown b ↔ (seq.segments.find? isSubmessage).any isUnknown = true := by
    constructor
    · rintro ⟨seq', parsed', first⟩
      cases parsed.symm.trans parsed'
      exact first
    · exact fun first => ⟨seq, parsed, first⟩
  have answers (segment : Bytes) (found : (Walk.skip read seq.segments 0 0).segment = segment) :
      (∃ feed, (Feed.between (b :: later) read).pop readDelayedInbox = .ok none feed) ↔
        ∃ read', segmentMessage seq (some b.blockHash) readDelayedInbox
          (Walk.skip read seq.segments 0 0).timestamp (Walk.skip read seq.segments 0 0).blockNumber
          read segment = .ok (.ok none, read') := by
    rw [opened, ← found]
    simp only [Feed.pop, Feed.popWithin, Walk.skipped]
    cases segmentMessage seq (some b.blockHash) readDelayedInbox
      (Walk.skip read seq.segments 0 0).timestamp (Walk.skip read seq.segments 0 0).blockNumber
      read (Walk.skip read seq.segments 0 0).segment with
    | error panic => simp
    | ok outcome =>
      obtain ⟨_ | _, _⟩ := outcome <;> simp
  have front := head_skip read seq.segments 0 0
  obtain ⟨k, same, stop⟩ := Walk.skip_rest read seq.segments 0 0
  rw [← same] at stop
  rw [unknown, ← front]
  rcases stop with empty | ⟨seg, tail, first, submessage⟩
  · rw [answers [batchSegmentKindDelayedMessages] (Walk.segment_nil empty),
      segmentMessage_none_iff seq _ _ _ read (by decide), empty]
    exact iff_of_false (by decide) Bool.false_ne_true
  · rw [answers seg (Walk.segment_cons first),
      segmentMessage_none_iff seq _ _ _ read submessage, first, List.head?_cons, Option.any_some]

/-- A window gives no message at all only because its first `pop` answers with nothing. -/
theorem streamBatches_eq_nil_iff {db : Db} {b : SequencerInboxBatch}
    {later : List SequencerInboxBatch} {read : Nat} {out : List MessageWithMetadataAndBlockInfo}
    (given : InboxTracker.streamBatches db (b :: later) read = .ok out) :
    out = [] ↔ OpensUnknown b := by
  rw [InboxTracker.streamBatches, drain_refines _ (new_tracks (b :: later) read)] at given
  rw [Feed.drain] at given
  cases parsed : parseSequencerMessage b.serialized with
  | error e =>
    simp only [Feed.pop, parsed] at given
    contradiction
  | ok seq =>
    rw [← first_pop_none_iff later read parsed]
    cases popped : (Feed.between (b :: later) read).pop (InboxTracker.getDelayedMessage db) with
    | error e feed =>
      rw [popped] at given
      contradiction
    | ok answer feed =>
      rw [popped] at given
      cases answer with
      | none =>
        cases given
        exact iff_of_true rfl ⟨feed, rfl⟩
      | some m =>
        simp only [EStateM.Result.ok.injEq, reduceCtorEq, false_and, exists_false, iff_false]
        rintro rfl
        revert given
        dsimp only
        cases feed.drain (InboxTracker.getDelayedMessage db)
          ((b :: later).length * Feed.batchSteps) with
        | error e => simp
        | ok out => simp

end Drain

/-- The number of batches that the tracker counts, none without a stored count. -/
def InboxTracker.batchCountOrZero (t : InboxTracker) : Nat :=
  (t.db.count .sequencerBatchCount).elim 0 (InboxTracker.repairCount t.db)

/-- The message count is where the window is expected to start, or the tracker is
cold, or the count falls in the window's first batch. -/
def InboxTracker.Aligned (t : InboxTracker) (firstSeq : Nat) : Prop :=
  ∃ m t₁ c, InboxTracker.previousMetadata firstSeq t = .ok m t₁ ∧
    t.db.count .messageCount = some c ∧
    (c = m.messageCount ∨ (t.batchCountOrZero = 0 ∧ firstSeq = 0 ∧ 0 < c) ∨
      ∃ t₂, InboxTracker.findInboxBatchContainingMessage c (final (InboxTracker.getBatchCount t₁)) =
        .ok (firstSeq, true) t₂)

theorem isAligned_iff {firstSeq c : Nat} {t t' : InboxTracker} {aligned : Bool}
    (decided : InboxTracker.isAligned firstSeq c t = .ok aligned t') :
    aligned = true ↔ (t.batchCountOrZero = 0 ∧ firstSeq = 0 ∧ 0 < c) ∨
      ∃ t₂, InboxTracker.findInboxBatchContainingMessage c (final (InboxTracker.getBatchCount t)) =
        .ok (firstSeq, true) t₂ := by
  obtain ⟨answer, t₁, counted, none, last⟩ : ∃ answer t₁,
      attempt InboxTracker.getBatchCount t = .ok answer t₁ ∧
      answer.toOption.getD 0 = t.batchCountOrZero ∧ final (InboxTracker.getBatchCount t) = t₁ := by
    rcases InboxTracker.getBatchCount_spec t with ⟨n, some, counted⟩ | ⟨none, failed⟩
    · refine ⟨_, _, attempt_ok counted, ?_, by rw [counted, final_ok]⟩
      rw [InboxTracker.batchCountOrZero, some]
      rfl
    · refine ⟨_, _, attempt_error failed, ?_, by rw [failed, final_error]⟩
      rw [InboxTracker.batchCountOrZero, none]
      rfl
  rw [InboxTracker.isAligned, bind_ok counted, none] at decided
  rw [last]
  by_cases cold : t.batchCountOrZero = 0 ∧ firstSeq = 0 ∧ 0 < c
  · rw [if_pos cold] at decided
    cases decided
    exact iff_of_true rfl (.inl cold)
  · rw [if_neg cold] at decided
    simp only [cold, false_or]
    cases found : InboxTracker.findInboxBatchContainingMessage c t₁ with
    | error e t₂ =>
      rw [bind_ok (attempt_error found)] at decided
      cases decided
      simp
    | ok place t₂ =>
      rw [bind_ok (attempt_ok found)] at decided
      obtain ⟨i, inside⟩ := place
      cases inside with
      | false =>
        cases decided
        simp
      | true =>
        cases decided
        simp

theorem alignWindow_isSome_iff {firstSeq c : Nat} {m : BatchMetadata} {t t' : InboxTracker}
    {window : Option (Nat × Nat)}
    (aligned : InboxTracker.alignWindow firstSeq m c t = .ok window t') :
    window.isSome = true ↔ c = m.messageCount ∨ (t.batchCountOrZero = 0 ∧ firstSeq = 0 ∧ 0 < c) ∨
      ∃ t₂, InboxTracker.findInboxBatchContainingMessage c (final (InboxTracker.getBatchCount t)) =
        .ok (firstSeq, true) t₂ := by
  unfold InboxTracker.alignWindow at aligned
  by_cases level : c = m.messageCount
  · rw [if_pos level] at aligned
    cases aligned
    exact iff_of_true rfl (.inl level)
  · rw [if_neg level] at aligned
    obtain ⟨decision, t₁, decided, rest⟩ := bind_eq_ok.mp aligned
    cases rest
    rw [or_iff_right level, ← isAligned_iff decided]
    cases decision <;> simp

section
variable [Externals]

/-- A call that ends well gets to the streamer exactly when its window is aligned
and gives a message. -/
theorem streams_iff {t t' : InboxTracker} {first : SequencerInboxBatch}
    {rest : List SequencerInboxBatch}
    (accepted : InboxTracker.addSequencerBatchesAndStream (first :: rest) t = .ok () t') :
    (∃ c out t₂, Streams t (first :: rest) c out t₂) ↔
      t.Aligned first.sequenceNumber ∧ ¬ OpensUnknown first := by
  rcases InboxTracker.previousMetadata_spec first.sequenceNumber t with
    ⟨m, cache, _, previous⟩ | ⟨_, e, failed⟩
  swap
  · rw [InboxTracker.addSequencerBatchesAndStream, bind_error failed] at accepted
    contradiction
  cases counted : t.db.count .messageCount with
  | none =>
    unfold InboxTracker.addSequencerBatchesAndStream at accepted
    simp only [bind_ok previous, bind_read, TransactionStreamer.getMessageCount, Db.readCount,
      counted, bind_lift_error] at accepted
    contradiction
  | some c =>
    obtain ⟨window, t₂, aligned, _, place⟩ :=
      InboxTracker.alignWindow_spec first.sequenceNumber m c ⟨t.db, cache⟩
    have here : t.Aligned first.sequenceNumber ↔ window.isSome = true := by
      rw [alignWindow_isSome_iff aligned]
      constructor
      · rintro ⟨m', t₁, c', previous', counted', alignment⟩
        cases previous.symm.trans previous'
        cases counted.symm.trans counted'
        exact alignment
      · exact fun alignment => ⟨m, _, c, previous, counted, alignment⟩
    rw [here]
    rw [ingest_aligned window previous counted aligned] at accepted
    constructor
    · rintro ⟨c', out, t₃, streams⟩
      obtain ⟨_, _, m', t₁, read, ⟨rfl, rfl⟩, previous', aligned', given⟩ := streams.path
      cases counted.symm.trans streams.counted
      cases previous.symm.trans previous'
      cases aligned.symm.trans aligned'
      exact ⟨rfl, fun unknown => streams.nonempty ((streamBatches_eq_nil_iff given).mpr unknown)⟩
    · rintro ⟨some, known⟩
      obtain ⟨⟨start, read⟩, rfl⟩ := Option.isSome_iff_exists.mp some
      obtain ⟨rfl, _⟩ := place start read rfl
      rw [Option.elim_some, InboxTracker.ingestWindow, bind_read] at accepted
      obtain ⟨out, _, streamed, _⟩ := bind_eq_ok.mp accepted
      obtain ⟨given, rfl⟩ := lift_eq_ok.mp streamed
      refine ⟨start, out, _, counted, ?_, first, rest, m, _, read, rfl, previous, aligned, given⟩
      rwa [Ne, streamBatches_eq_nil_iff given]

end

/-- Every batch is stored with its accumulator, and the last one is counted last. -/
def Ingested (t : InboxTracker) (batches : List SequencerInboxBatch) : Prop :=
  (∀ b ∈ batches, ∃ m, t.db.get .sequencerBatchMeta b.sequenceNumber = some m ∧
    m.accumulator = b.afterInboxAcc) ∧
  ∀ last ∈ batches.getLast?, ∃ t', InboxTracker.getBatchCount t = .ok (last.sequenceNumber + 1) t'

theorem getBatchCount_eq_ok {t : InboxTracker} {n : Nat} :
    (∃ t', InboxTracker.getBatchCount t = .ok n t') ↔
      (InboxTracker.repaired t.db).count .sequencerBatchCount = some n := by
  obtain ⟨_, _, count⟩ := InboxTracker.repaired_spec t.db
  rw [count]
  rcases InboxTracker.getBatchCount_spec t with ⟨k, some, counted⟩ | ⟨none, failed⟩
  · simp [counted, some]
  · simp [failed, none]

theorem getBatchCount_repaired {t : InboxTracker} {n : Nat}
    (counted : (InboxTracker.repaired t.db).count .sequencerBatchCount = some n) :
    InboxTracker.getBatchCount t = .ok n { t with db := InboxTracker.repaired t.db } := by
  rw [(InboxTracker.repaired_spec t.db).2.2] at counted
  rcases InboxTracker.getBatchCount_spec t with ⟨k, some, ran⟩ | ⟨none, _⟩
  · rw [some, Option.map_some] at counted
    rw [ran, Option.some.inj counted]
  · rw [none] at counted
    contradiction

/-- A repair of the batch count ingests nothing. -/
theorem ingested_repaired_iff {t t' : InboxTracker} (batches : List SequencerInboxBatch)
    (same : t'.db = t.db ∨ t'.db = InboxTracker.repaired t.db) :
    Ingested t' batches ↔ Ingested t batches := by
  have again : InboxTracker.repaired t'.db = InboxTracker.repaired t.db := by
    rcases same with same | same
    · rw [same]
    · rw [same, InboxTracker.repaired_idem]
  simp only [Ingested, getBatchCount_eq_ok, get_of_repaired same, again]

section
variable [Externals]

/-- Accepted batches are stored, each with its accumulator, and they are the last ones. -/
theorem addSequencerBatches_stored {t t' : InboxTracker} {first : SequencerInboxBatch}
    {rest : List SequencerInboxBatch}
    (accepted : InboxTracker.addSequencerBatches (first :: rest) t = .ok () t') :
    (∀ i b, (first :: rest)[i]? = some b → b.sequenceNumber = first.sequenceNumber + i ∧
      ∃ m, t'.db.get .sequencerBatchMeta b.sequenceNumber = some m ∧
        m.accumulator = b.afterInboxAcc) ∧
    (InboxTracker.repaired t'.db).count .sequencerBatchCount =
      some (first.sequenceNumber + (first :: rest).length) := by
  obtain ⟨m, t₀, metas, _, checked, described, count, stored⟩ := addSequencerBatches_eq_ok accepted
  obtain ⟨ms, numbered, _, entries⟩ := describeBatches_eq_ok checked described
  obtain rfl := numberFrom_injective numbered
  have entry (i : Nat) (b : SequencerInboxBatch) (here : (first :: rest)[i]? = some b) :
      b.sequenceNumber = first.sequenceNumber + i ∧ ∃ m',
        t'.db.get .sequencerBatchMeta b.sequenceNumber = some m' ∧
        m'.accumulator = b.afterInboxAcc := by
    obtain ⟨number, prev, seq, _, _, described⟩ := entries i b here
    exact ⟨number, _, number ▸ stored i _ described, rfl⟩
  refine ⟨entry, ?_⟩
  obtain ⟨last, here⟩ : ∃ last, (first :: rest)[rest.length]? = some last :=
    ⟨_, List.getElem?_eq_getElem (show rest.length < (first :: rest).length by simp)⟩
  obtain ⟨number, m', found, _⟩ := entry rest.length last here
  rw [(InboxTracker.repaired_spec t'.db).2.2, count, Option.map_some, InboxTracker.repairCount_self]
  intro i same
  have position : i = last.sequenceNumber := by
    rw [number]
    rw [List.length_cons] at same
    omega
  rw [position, Store.has, found, Option.isSome_some]

theorem addSequencerBatches_ingested {t t' : InboxTracker} {first : SequencerInboxBatch}
    {rest : List SequencerInboxBatch}
    (accepted : InboxTracker.addSequencerBatches (first :: rest) t = .ok () t') :
    Ingested t' (first :: rest) := by
  obtain ⟨entries, counted⟩ := addSequencerBatches_stored accepted
  constructor
  · intro b member
    obtain ⟨i, here⟩ := List.mem_iff_getElem?.mp member
    exact (entries i b here).2
  · intro last final
    rw [Option.mem_def, List.getLast?_eq_getElem?] at final
    have next : last.sequenceNumber + 1 = first.sequenceNumber + (first :: rest).length := by
      rw [(entries _ last final).1, List.length_cons]
      omega
    rw [getBatchCount_eq_ok, counted, next]

/-- After a call that ends well the batches are stored exactly when the window was
aligned and its first batch gives a message, or when they were stored before. -/
theorem accepted_ingested_iff {t t' : InboxTracker} {first : SequencerInboxBatch}
    {rest : List SequencerInboxBatch}
    (accepted : InboxTracker.addSequencerBatchesAndStream (first :: rest) t = .ok () t') :
    Ingested t' (first :: rest) ↔
      (t.Aligned first.sequenceNumber ∧ ¬ OpensUnknown first) ∨ Ingested t (first :: rest) := by
  rw [← streams_iff accepted]
  obtain ⟨t₂, same, _, ⟨silent, finished⟩ | ⟨c, out, streams, _, reached⟩⟩ :=
    ingest_cases t first rest
  · have last : t' = t₂ := by
      rw [← final_of_ended finished, accepted, final_ok]
    rw [last, ingested_repaired_iff _ same, or_iff_right]
    rintro ⟨c, out, t₃, streams⟩
    exact silent c out t₃ streams
  · rw [reached] at accepted
    obtain ⟨_, t₃, _, recorded⟩ := bind_eq_ok.mp accepted
    exact iff_of_true (addSequencerBatches_ingested recorded) (.inl ⟨c, out, t₂, streams⟩)

end

section Samples
open Codecs

/-- A first batch with an L2 segment is stored. -/
theorem l2_batch_ingested : ∃ t', InboxTracker.addSequencerBatchesAndStream [batch 0 0 [[0, 7]]]
      initialTracker = .ok () t' ∧ Ingested t' [batch 0 0 [[0, 7]]] := by
  obtain ⟨_, accepted⟩ := eq_ok_of_isOk (show isOk (InboxTracker.addSequencerBatchesAndStream
    [batch 0 0 [[0, 7]]] initialTracker) = true by decide +kernel)
  refine ⟨_, accepted, (accepted_ingested_iff accepted).mpr (.inl ⟨?_, ?_⟩)⟩
  · exact ⟨.zero, _, 0, rfl, rfl, .inl rfl⟩
  · rintro ⟨seq, parsed, unknown⟩
    have parsed' := parse_batch 0 (show 0 < 2 ^ 64 by decide)
      (show [[0, 7]].length ≤ segmentCap + 1 by decide)
    cases parsed'.symm.trans parsed
    exact absurd unknown (by decide)

/-- A batch whose only segment is of an unknown kind is accepted and not stored. -/
theorem unknown_batch_not_ingested : ∃ t', InboxTracker.addSequencerBatchesAndStream
      [batch 0 0 [[5]]] initialTracker = .ok () t' ∧ ¬ Ingested t' [batch 0 0 [[5]]] := by
  obtain ⟨_, accepted⟩ := eq_ok_of_isOk (show isOk (InboxTracker.addSequencerBatchesAndStream
    [batch 0 0 [[5]]] initialTracker) = true by decide +kernel)
  refine ⟨_, accepted, fun ingested => ?_⟩
  obtain ⟨m, stored, _⟩ := ingested.1 _ List.mem_cons_self
  have missing : (final (InboxTracker.addSequencerBatchesAndStream [batch 0 0 [[5]]]
      initialTracker)).db.get .sequencerBatchMeta 0 = none := by decide +kernel
  rw [show (batch 0 0 [[5]]).sequenceNumber = 0 from rfl, missing] at stored
  contradiction

end Samples
end NitroRs
