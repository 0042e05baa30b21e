import NitroRs.Inbox.CombinedRuns
import NitroRs.Inbox.TrackerSpec
import NitroRs.Lib.Ensures

/-! Every delayed message that any of the tracker's operations stores reads back: it is parsed before
its entry is queued, and nothing writes the entries of the older formats. So no operation fails to
decode an entry. -/
namespace NitroRs
open KeyValue Outcome

/-- The error of a delayed entry that does not read back. -/
def Error.isUndecodable : Error → Bool
  | .unexpectedEof | .entryMissingAccumulator _ | .invalidParentChainBlock => true
  | .reorgToFutureBatch cause => cause.isUndecodable
  | _ => false

abbrev Error.Decodes (e : Error) : Prop := e.isUndecodable = false

/-- Each delayed entry splits into an accumulator and a message; the older tables have no entries. -/
structure ReadableDelayed (db : Db) : Prop where
  entries : ∀ i data, db.get .rlpDelayedMessage i = some data → ∃ acc msg, InboxTracker.splitEntry .new data = .ok (acc, msg)
  legacy : ∀ i, db.get .legacyDelayedMessage i = none
  blocks : ∀ i, db.get .parentChainBlockNumber i = none

/-- An operation that stores no unreadable entry. -/
def DbOp.Readable : DbOp → Prop
  | .put .rlpDelayedMessage _ data => ∃ acc msg, InboxTracker.splitEntry .new data = .ok (acc, msg)
  | .put .legacyDelayedMessage _ _ | .put .parentChainBlockNumber _ _ => False
  | _ => True

namespace ReadableDelayed
variable {db db' : Db} {t : Table}

theorem of_agree (readable : ReadableDelayed db) (frame : Agree .tracker db db') : ReadableDelayed db' where
  entries i data stored := by
    rw [frame.get .rlpDelayedMessage rfl] at stored
    exact readable.entries i data stored
  legacy i := (congrFun (frame.get .legacyDelayedMessage rfl) i).trans (readable.legacy i)
  blocks i := (congrFun (frame.get .parentChainBlockNumber rfl) i).trans (readable.blocks i)

theorem apply (readable : ReadableDelayed db) {op : DbOp} (safe : op.Readable) : ReadableDelayed (db.apply op) := by
  cases op with
  | setCount c n => exact ⟨readable.entries, readable.legacy, readable.blocks⟩
  | put t i v =>
    by_cases tracker : t = .rlpDelayedMessage
    · subst tracker
      refine ⟨fun j data stored => ?_, readable.legacy, readable.blocks⟩
      rw [Store.get_apply_put] at stored
      split at stored
      · cases stored
        exact safe
      · exact readable.entries j data stored
    · have entries := Store.get_apply_put_of_ne db i v (Ne.symm tracker)
      have legacy : t ≠ .legacyDelayedMessage := by
        rintro rfl
        exact safe
      have blocks : t ≠ .parentChainBlockNumber := by
        rintro rfl
        exact safe
      refine ⟨fun j data stored => ?_, fun j => ?_, fun j => ?_⟩
      · rw [entries] at stored
        exact readable.entries j data stored
      · rw [Store.get_apply_put_of_ne db i v (Ne.symm legacy)]
        exact readable.legacy j
      · rw [Store.get_apply_put_of_ne db i v (Ne.symm blocks)]
        exact readable.blocks j
  | del t i =>
    have fewer {u : Table} {j : Nat} {data : u.Record} (stored : (db.apply (.del t i)).get u j = some data) :
        db.get u j = some data := by
      by_cases same : u = t
      · subst same
        rw [Store.get_apply_del] at stored
        split at stored
        · cases stored
        · exact stored
      · rwa [Store.get_apply_del_of_ne _ _ same] at stored
    refine ⟨fun j data stored => readable.entries j data (fewer stored), fun j => ?_, fun j => ?_⟩
    · cases stored : (db.apply (.del t i)).get .legacyDelayedMessage j with
      | none => rfl
      | some data => exact absurd ((readable.legacy j).symm.trans (fewer stored)) nofun
    · cases stored : (db.apply (.del t i)).get .parentChainBlockNumber j with
      | none => rfl
      | some data => exact absurd ((readable.blocks j).symm.trans (fewer stored)) nofun

theorem write (readable : ReadableDelayed db) {ops : List DbOp} (safe : ∀ op ∈ ops, DbOp.Readable op) :
    ReadableDelayed (db.write ops) := by
  induction ops generalizing db with
  | nil => exact readable
  | cons op ops ih =>
    obtain ⟨first, later⟩ := List.forall_mem_cons.mp safe
    exact ih (readable.apply first) later

end ReadableDelayed

theorem readable_deleteFrom (db : Db) (t : Table) (start : Nat) : ∀ op ∈ db.deleteFrom t start, DbOp.Readable op := by
  intro op member
  obtain ⟨entry, _, rfl⟩ := List.mem_map.mp member
  trivial

namespace ReadableDelayed
variable {db : Db} {i : Nat} {e : Error}

theorem getDelayedMessage_decodes (readable : ReadableDelayed db) (failed : InboxTracker.getDelayedMessage db i = .error e) :
    e.Decodes := by
  unfold InboxTracker.getDelayedMessage InboxTracker.getDelayedMessageAccumulatorAndParentChainBlockNumber at failed
  cases stored : db.get .rlpDelayedMessage i with
  | some data =>
    obtain ⟨acc, msg, read⟩ := readable.entries i data stored
    simp only [stored, read, readable.blocks i, bind, Except.bind, pure, Except.pure] at failed
    cases failed
  | none =>
    simp only [stored, InboxTracker.legacyGetDelayedMessageAndAccumulator, readable.legacy i, bind, Except.bind] at failed
    cases failed
    rfl

theorem splitEntry_label {label : EntryLabel} {data : Bytes} {read : B256 × L1IncomingMessage}
    (split : InboxTracker.splitEntry .new data = .ok read) : InboxTracker.splitEntry label data = .ok read := by
  unfold InboxTracker.splitEntry at split ⊢
  split at split
  · rename_i enough
    rwa [dif_pos enough]
  · cases split

theorem getDelayedAcc_decodes [Externals] (readable : ReadableDelayed db) (failed : InboxTracker.getDelayedAcc db i = .error e) :
    e.Decodes := by
  unfold InboxTracker.getDelayedAcc at failed
  cases stored : db.get .rlpDelayedMessage i with
  | some data =>
    obtain ⟨acc, msg, read⟩ := readable.entries i data stored
    rw [stored] at failed
    dsimp only at failed
    rw [InboxTracker.accumulatorAfter, splitEntry_label read] at failed
    cases failed
  | none =>
    simp only [stored, readable.legacy i] at failed
    cases failed
    rfl

end ReadableDelayed

theorem readCount_decodes {db : Db} {c : Counter} {e : Error} (failed : db.readCount c = .error e) : e.Decodes := by
  unfold Db.readCount at failed
  cases stored : db.count c with
  | some n => simp only [stored, reduceCtorEq] at failed
  | none =>
    simp only [stored, Except.error.injEq] at failed
    rw [← failed]
    rfl

section Batches
variable [Externals] {readDelayedInbox : Nat → Except Error L1IncomingMessage} {e : Error}

theorem parseSequencerMessage_decodes {data : Bytes} (failed : parseSequencerMessage data = .error e) : e.Decodes := by
  unfold parseSequencerMessage at failed
  split at failed
  · cases failed
    rfl
  · cases parsed : parseSegments (data.drop 40) with
    | ok segments =>
      rw [parsed] at failed
      cases failed
    | error e' =>
      rw [parsed] at failed
      cases failed
      unfold parseSegments at parsed
      split at parsed
      · cases parsed
      · split at parsed
        · split at parsed
          · cases parsed
          · cases parsed
            rfl
        · cases parsed

/-- An answer that is no panic and no error of a stored entry. -/
def AnswerDecodes {α : Type} : Except Error (Except Error α × Nat) → Prop
  | .error e | .ok (.error e, _) => e.Decodes
  | .ok (.ok _, _) => True

omit [Externals] in
theorem clamp_decodes {x lo hi : UInt64} (failed : clamp x lo hi = .error e) : e.Decodes := by
  unfold clamp at failed
  split at failed
  · cases failed
  · cases failed
    rfl

/-- A submessage fails as the delayed inbox does, or with an error of its own. -/
theorem segmentMessage_decodes (stored : ∀ i e, readDelayedInbox i = .error e → e.Decodes) (seq : SequencerMessage)
    (hash : Option B256) (ts bn : UInt64) (read : Nat) (seg : Bytes) :
    AnswerDecodes (segmentMessage seq hash readDelayedInbox ts bn read seg) := by
  cases seg with
  | nil => trivial
  | cons kind body =>
    rw [segmentMessage]
    split
    · split
      · exact rfl
      · cases block : clamp bn seq.minL1Block seq.maxL1Block with
        | error e => exact clamp_decodes block
        | ok bn' =>
          cases time : clamp ts seq.minTimestamp seq.maxTimestamp with
          | error e => exact clamp_decodes time
          | ok ts' => trivial
    · split
      · split
        · trivial
        · cases delayed : readDelayedInbox read with
          | error e => exact stored read e delayed
          | ok m => trivial
      · trivial

theorem popWithin_decodes (stored : ∀ i e, readDelayedInbox i = .error e → e.Decodes) {batch : SequencerInboxBatch}
    {later : List SequencerInboxBatch} {seq : SequencerMessage} {walk : Walk} {feed' : Feed}
    (failed : Feed.popWithin readDelayedInbox batch later seq walk = .error e feed') : e.Decodes := by
  have decodes := segmentMessage_decodes stored seq (some batch.blockHash) walk.skipped.timestamp
    walk.skipped.blockNumber walk.delayedRead walk.skipped.segment
  unfold Feed.popWithin at failed
  split at failed
  · rename_i panic ran
    cases failed
    rwa [ran] at decodes
  · rename_i result read ran
    have inner := (lift_eq_error.mp failed).1
    subst inner
    rwa [ran] at decodes

theorem pop_decodes (stored : ∀ i e, readDelayedInbox i = .error e → e.Decodes) {feed feed' : Feed}
    (failed : feed.pop readDelayedInbox = .error e feed') : e.Decodes := by
  cases feed with
  | within batch later seq walk => exact popWithin_decodes stored failed
  | between batches read =>
    cases batches with
    | nil => cases failed
    | cons batch later =>
      cases parsed : parseSequencerMessage batch.serialized with
      | error e' =>
        simp only [Feed.pop, parsed] at failed
        cases failed
        exact parseSequencerMessage_decodes parsed
      | ok seq =>
        simp only [Feed.pop, parsed] at failed
        exact popWithin_decodes stored failed

theorem drain_decodes (stored : ∀ i e, readDelayedInbox i = .error e → e.Decodes) (fuel : Nat) {feed : Feed}
    (failed : feed.drain readDelayedInbox fuel = .error e) : e.Decodes := by
  induction fuel generalizing feed with
  | zero =>
    cases failed
    rfl
  | succ fuel ih =>
    unfold Feed.drain at failed
    cases popped : feed.pop readDelayedInbox with
    | error e' feed' =>
      rw [popped] at failed
      cases failed
      exact pop_decodes stored popped
    | ok answer feed' =>
      rw [popped] at failed
      cases answer with
      | none => cases failed
      | some m =>
        cases more : feed'.drain readDelayedInbox fuel with
        | ok out =>
          dsimp only at failed
          rw [more] at failed
          cases failed
        | error e' =>
          dsimp only at failed
          rw [more] at failed
          cases failed
          exact ih more

theorem streamBatches_decodes {db : Db} (readable : ReadableDelayed db) {batches : List SequencerInboxBatch} {read : Nat}
    (failed : InboxTracker.streamBatches db batches read = .error e) : e.Decodes := by
  rw [streamBatches_eq] at failed
  exact drain_decodes (fun _ _ => readable.getDelayedMessage_decodes) _ failed

end Batches

namespace TransactionStreamer
variable {first : Nat} {messages : List MessageWithMetadataAndBlockInfo} {track : Option Nat} {e : Error}

theorem checkDelayedReads_decodes {idx last : Nat} (failed : checkDelayedReads idx last messages = .error e) : e.Decodes := by
  induction messages generalizing idx last with
  | nil => cases failed
  | cons m ms ih =>
    rw [checkDelayedReads] at failed
    split at failed
    · cases failed
      rfl
    · exact ih failed

theorem addMessagesAndReorg_ensures (first : Nat) (messages : List MessageWithMetadataAndBlockInfo) (track : Option Nat) :
    Ensures ReadableDelayed (fun _ => True) Error.Decodes (addMessagesAndReorg first messages track) where
  keeps db readable := readable.of_agree (addMessagesAndReorg_frame first messages track db)
  value _ _ _ _ _ := trivial
  cause db e db' _ failed := by
    unfold addMessagesAndReorg at failed
    split at failed
    · cases failed
      rfl
    · rw [bind_update] at failed
      split at failed <;> cases failed

theorem addMessagesAndEndBatchImpl_ensures (first : Nat) (confirmed : Bool)
    (messages : List MessageWithMetadataAndBlockInfo) (track : Option Nat) :
    Ensures ReadableDelayed (fun _ => True) Error.Decodes (addMessagesAndEndBatchImpl first confirmed messages track) := by
  have append {ops : List DbOp} (foreign : ∀ op ∈ ops, DbOp.owner op ≠ .tracker) :
      Ensures ReadableDelayed (fun _ => True) Error.Decodes (update fun db => db.write ops) :=
    .update fun db readable => readable.of_agree (.write foreign)
  refine .bind .read fun db _ => ?_
  split
  · exact .throw rfl
  · rcases countDuplicateMessages db first messages with ⟨dups, reorg⟩
    dsimp only
    split
    · exact .pure trivial
    · refine .bind (.lift (fun _ _ => trivial) fun e failed => checkDelayedReads_decodes failed) fun _ _ => ?_
      split
      · exact addMessagesAndReorg_ensures _ _ _
      · split
        · exact .pure trivial
        · exact append (writeMessages_owner _ _ _)

end TransactionStreamer

namespace InboxTracker

/-- The state predicate of the tracker. -/
abbrev Reads (t : InboxTracker) : Prop := ReadableDelayed t.db

/-- The tracker keeps its entries readable, and does not fail to read one. -/
abbrev KeepsReading {α : Type} (x : EStateM Error InboxTracker α) : Prop :=
  Ensures Reads (fun _ => True) Error.Decodes x

/-- Operations that keep the entries readable. -/
abbrev Safe (ops : List DbOp) : Prop := ∀ op ∈ ops, DbOp.Readable op

theorem safe_append {xs ys : List DbOp} (first : Safe xs) (second : Safe ys) : Safe (xs ++ ys) :=
  List.forall_mem_append.mpr ⟨first, second⟩

theorem safe_count (c : Counter) (n : Nat) : Safe [.setCount c n] := List.forall_mem_singleton.mpr trivial

theorem writeBatch_reads {ops : List DbOp} (safe : Safe ops) : KeepsReading (writeBatch ops) :=
  .update fun _ readable => readable.write safe

theorem deleteBatchMetadataStartingAt_reads (start : Nat) :
    KeepsReading (deleteBatchMetadataStartingAt start) :=
  .update fun _ readable => readable.write (readable_deleteFrom _ _ _)

theorem initializeTracker_reads : KeepsReading initializeTracker := by
  have zero (db : Db) (c : Counter) : Safe (zeroIfMissing db c) := by
    unfold zeroIfMissing
    split
    · exact safe_count c 0
    · exact List.forall_mem_nil _
  refine .bind .read fun t _ => writeBatch_reads ?_
  exact safe_append (safe_append (zero _ _) (zero _ _)) (zero _ _)

theorem getBatchMetadata_reads (seqnum : Nat) : KeepsReading (getBatchMetadata seqnum) := by
  refine ⟨fun t readable => ?_, fun _ _ _ _ _ => trivial, fun t e t' _ failed => ?_⟩
  · rcases getBatchMetadata_cases seqnum t with ⟨m, cache, _, found, _⟩ | ⟨_, missing⟩
    · rwa [found]
    · rwa [missing]
  · rcases getBatchMetadata_cases seqnum t with ⟨m, cache, _, found, _⟩ | ⟨_, missing⟩
    · cases found.symm.trans failed
    · cases missing.symm.trans failed
      rfl

theorem getBatchMessageCount_reads (seqnum : Nat) : KeepsReading (getBatchMessageCount seqnum) :=
  .bind (getBatchMetadata_reads seqnum) fun _ _ => .pure trivial

theorem getBatchCount_reads : KeepsReading getBatchCount := by
  refine .bind .read fun t _ => .bind (.lift (fun _ _ => trivial) fun _ => readCount_decodes) fun count _ => ?_
  dsimp only
  split
  · exact .pure trivial
  · exact .bind (writeBatch_reads (safe_count _ _)) fun _ _ => .pure trivial

theorem searchBatches_reads (pos fuel low high : Nat) :
    KeepsReading (searchBatches pos fuel low high) := by
  induction fuel generalizing low high with
  | zero => exact .throw rfl
  | succ fuel ih =>
    refine .bind (getBatchMessageCount_reads _) fun count _ => ?_
    split
    · split
      · exact .pure trivial
      · exact ih _ _
    · split
      · exact .pure trivial
      · split
        · exact .pure trivial
        · exact ih _ _

theorem findInboxBatchContainingMessage_reads (pos : Nat) :
    KeepsReading (findInboxBatchContainingMessage pos) := by
  refine .bind getBatchCount_reads fun count _ => ?_
  dsimp only
  split
  · exact .pure trivial
  · refine .bind (getBatchMessageCount_reads _) fun last _ => ?_
    split
    · exact .pure trivial
    · exact searchBatches_reads _ _ _ _

/-- The queue that a delayed reorg returns. -/
theorem setDelayedCountReorgAndWriteBatch_reads {batch : List DbOp} (safe : Safe batch) (first count : Nat)
    (canReorgBatches : Bool) :
    Ensures Reads Safe Error.Decodes (setDelayedCountReorgAndWriteBatch batch first count canReorgBatches) := by
  refine .bind .read fun t _ => ?_
  split
  · exact .throw rfl
  · have cut : Safe (batch ++ t.db.deleteFrom .rlpDelayedMessage count ++ t.db.deleteFrom .parentChainBlockNumber count ++
        t.db.deleteFrom .legacyDelayedMessage count ++ [.setCount .delayedMessageCount count]) :=
      safe_append (safe_append (safe_append (safe_append safe (readable_deleteFrom _ _ _)) (readable_deleteFrom _ _ _))
        (readable_deleteFrom _ _ _)) (safe_count _ _)
    dsimp only
    split
    · exact .pure cut
    · split
      · exact .throw rfl
      · refine .bind (deleteBatchMetadataStartingAt_reads _) fun _ _ => .pure ?_
        exact safe_append (safe_append cut (readable_deleteFrom _ _ _)) (safe_count _ _)

theorem reorgDelayedTo_reads (count : Nat) : KeepsReading (reorgDelayedTo count) :=
  .bind (setDelayedCountReorgAndWriteBatch_reads (List.forall_mem_nil _) count count true) fun _ safe => writeBatch_reads safe

theorem previousMetadata_reads (first : Nat) : KeepsReading (previousMetadata first) := by
  unfold previousMetadata
  split
  · exact getBatchMetadata_reads _
  · exact .pure trivial

theorem reorgBatchesToDb_reads (count : Nat) : KeepsReading (reorgBatchesToDb count) := by
  refine .bind ((previousMetadata_reads count).mapError fun _ same => same) fun m _ => .bind .read fun t _ => ?_
  refine .bind (deleteBatchMetadataStartingAt_reads _) fun _ _ => .bind (writeBatch_reads ?_) fun _ _ => .pure trivial
  exact safe_append (readable_deleteFrom _ _ _) (safe_count _ _)

section
variable [Externals]

/-- An entry is queued only when its message parses. -/
theorem queueDelayed_safe {messages : List DelayedInput} {pos : Nat} {acc : B256} {ops : List DbOp}
    (queued : queueDelayed pos acc messages = .ok ops) : Safe ops := by
  induction messages generalizing pos acc ops with
  | nil =>
    cases queued
    exact List.forall_mem_nil _
  | cons m rest ih =>
    obtain ⟨seqnum, beforeAcc, bytes⟩ := m
    rw [queueDelayed] at queued
    split at queued
    · cases queued
    · cases parsed : parseIncomingL1MessageLegacy bytes with
      | error e =>
        rw [parsed] at queued
        cases queued
      | ok msg =>
        rw [parsed] at queued
        dsimp only at queued
        split at queued
        · cases queued
        · obtain ⟨later, more, queued⟩ := except_bind_eq_ok.mp queued
          cases queued
          refine List.forall_mem_cons.mpr ⟨⟨acc, msg, ?_⟩, ih more⟩
          have width : 32 ≤ (acc.val ++ bytes).length := by rw [List.length_append, acc.property]; omega
          have split32 : (acc.val ++ bytes).drop 32 = bytes ∧ (acc.val ++ bytes).take 32 = acc.val :=
            ⟨List.drop_left' acc.property, List.take_left' acc.property⟩
          simp only [splitEntry, dif_pos width, split32.1, parsed]
          exact congrArg (fun acc => Except.ok (acc, msg)) (Subtype.ext split32.2)

/-- An error that is not of a stored entry: it may be of a message that is too short for its fields. -/
def DelayedError (messages : List DelayedInput) (e : Error) : Prop :=
  e.Decodes ∨ e = .unexpectedEof ∧ ∃ m ∈ messages, parseIncomingL1MessageLegacy m.2.2 = .error .unexpectedEof

omit [Externals] in
theorem parseIncomingL1MessageLegacy_error {bytes : Bytes} {e : Error} (failed : parseIncomingL1MessageLegacy bytes = .error e) :
    e = .unexpectedEof := by
  have field {n : Nat} {rdr : Bytes} (failed : readExact n rdr = .error e) : e = .unexpectedEof := by
    unfold readExact at failed
    split at failed
    · cases failed
    · cases failed
      rfl
  have word {rdr : Bytes} (failed : readU64Be rdr = .error e) : e = .unexpectedEof := by
    rcases except_bind_eq_error.mp failed with short | ⟨_, _, failed⟩
    · exact field short
    · cases failed
  rcases except_bind_eq_error.mp failed with short | ⟨_, _, failed⟩
  · exact field short
  rcases except_bind_eq_error.mp failed with short | ⟨_, _, failed⟩
  · exact field short
  rcases except_bind_eq_error.mp failed with short | ⟨_, _, failed⟩
  · exact word short
  rcases except_bind_eq_error.mp failed with short | ⟨_, _, failed⟩
  · exact word short
  rcases except_bind_eq_error.mp failed with short | ⟨_, _, failed⟩
  · exact field short
  rcases except_bind_eq_error.mp failed with short | ⟨_, _, failed⟩
  · exact field short
  · cases failed

omit [Externals] in
theorem DelayedError.mono {messages kept : List DelayedInput} {e : Error} (failed : DelayedError kept e)
    (own : ∀ m ∈ kept, m ∈ messages) : DelayedError messages e := by
  rcases failed with decodes | ⟨short, m, member, parsed⟩
  · exact .inl decodes
  · exact .inr ⟨short, m, own m member, parsed⟩

theorem queueDelayed_cause {messages : List DelayedInput} {pos : Nat} {acc : B256} {e : Error}
    (failed : queueDelayed pos acc messages = .error e) : DelayedError messages e := by
  induction messages generalizing pos acc with
  | nil => cases failed
  | cons m rest ih =>
    obtain ⟨seqnum, beforeAcc, bytes⟩ := m
    rw [queueDelayed] at failed
    split at failed
    · cases failed
      exact .inl rfl
    · cases parsed : parseIncomingL1MessageLegacy bytes with
      | error e' =>
        rw [parsed] at failed
        cases failed
        obtain rfl := parseIncomingL1MessageLegacy_error parsed
        exact .inr ⟨rfl, _, List.mem_cons_self, parsed⟩
      | ok msg =>
        rw [parsed] at failed
        dsimp only at failed
        split at failed
        · cases failed
          exact .inl rfl
        · cases more : queueDelayed (pos + 1) (hashAfter acc (delayedMessageBodyHash msg).val) rest with
          | ok ops =>
            rw [more] at failed
            cases failed
          | error e' =>
            rw [more] at failed
            cases failed
            exact (ih more).mono fun _ => List.mem_cons_of_mem _

theorem previousAccumulator_decodes {db : Db} {startAcc : B256} {pos : Nat} {e : Error}
    (failed : previousAccumulator db startAcc pos = .error e) : e.Decodes := by
  unfold previousAccumulator at failed
  split at failed
  · cases failed
  · split at failed
    · cases failed
    · cases failed
      rfl

omit [Externals] in
theorem mem_of_skipBefore {firstKeep : Nat} {acc : B256} {messages : List DelayedInput} :
    ∀ m ∈ (skipBefore firstKeep acc messages).2, m ∈ messages := by
  induction messages generalizing acc with
  | nil => exact fun _ member => member
  | cons first rest ih =>
    obtain ⟨pos, beforeAcc, bytes⟩ := first
    intro m member
    rw [skipBefore] at member
    split at member
    · exact List.mem_cons_of_mem _ (ih m member)
    · exact member

omit [Externals] in
theorem mem_of_snapSyncSkip {snapSync : Option SnapSyncConfig} {messages : List DelayedInput} :
    ∀ m ∈ (snapSyncSkip snapSync messages).2, m ∈ messages := by
  intro m member
  unfold snapSyncSkip at member
  split at member
  · split at member
    · exact mem_of_skipBefore m member
    · exact member
  · exact member

/-- The only message that it fails to decode is one of its own. -/
theorem addDelayedMessages_reads (messages : List DelayedInput) (snapSync : Option SnapSyncConfig) :
    Ensures Reads (fun _ => True) (DelayedError messages) (addDelayedMessages messages snapSync) := by
  have own : ∀ m ∈ (snapSyncSkip snapSync messages).2, m ∈ messages := mem_of_snapSyncSkip
  refine .bind .read fun t _ => ?_
  generalize snapSyncSkip snapSync messages = kept at own ⊢
  obtain ⟨acc, kept⟩ := kept
  cases kept with
  | nil => exact .pure trivial
  | cons m rest =>
    have queues {pos : Nat} {acc : B256} {e : Error} (failed : queueDelayed pos acc (m :: rest) = .error e) :
        DelayedError messages e := (queueDelayed_cause failed).mono own
    refine .bind (.lift (fun _ _ => trivial) fun _ failed => .inl (previousAccumulator_decodes failed)) fun next _ => ?_
    refine .bind (.lift (fun ops queued => queueDelayed_safe queued) fun _ => queues) fun ops safe => ?_
    refine .bind ((setDelayedCountReorgAndWriteBatch_reads safe _ _ true).weaken fun _ => .inl) fun _ safe => ?_
    exact (writeBatch_reads safe).weaken fun _ => .inl

omit [Externals] in
theorem batchOps_safe (last : BatchMetadata) (metas : List (Nat × BatchMetadata)) : Safe (batchOps last metas) := by
  induction metas generalizing last with
  | nil => exact List.forall_mem_nil _
  | cons entry metas ih =>
    obtain ⟨seqnum, metadata⟩ := entry
    refine safe_append (List.forall_mem_cons.mpr ⟨trivial, ?_⟩) (ih metadata)
    split
    · exact List.forall_mem_singleton.mpr trivial
    · exact List.forall_mem_nil _

theorem checkBatches_decodes {db : Db} {pos : Nat} {acc : B256} {batches : List SequencerInboxBatch} {e : Error}
    (failed : checkBatches db pos acc batches = .error e) : e.Decodes := by
  induction batches generalizing pos acc with
  | nil => cases failed
  | cons b later ih =>
    rw [checkBatches] at failed
    split at failed
    · cases failed
      rfl
    · split at failed
      · cases failed
        rfl
      · split at failed
        · cases failed
          rfl
        · exact ih failed

theorem describeBatches_decodes {last : BatchMetadata} {batches : List SequencerInboxBatch} {e : Error}
    (failed : describeBatches last batches = .error e) : e.Decodes := by
  induction batches generalizing last with
  | nil => cases failed
  | cons b later ih =>
    rw [describeBatches] at failed
    cases parsed : parseSequencerMessage b.serialized with
    | error e' =>
      rw [parsed] at failed
      cases failed
      exact parseSequencerMessage_decodes parsed
    | ok seq =>
      rw [parsed] at failed
      dsimp only at failed
      cases more : describeBatches (batchMetadata last b seq) later with
      | ok metas =>
        rw [more] at failed
        cases failed
      | error e' =>
        rw [more] at failed
        cases failed
        exact ih more

theorem addSequencerBatches_reads (batches : List SequencerInboxBatch) :
    KeepsReading (addSequencerBatches batches) := by
  cases batches with
  | nil => exact .pure trivial
  | cons first later =>
    refine .bind (previousMetadata_reads _) fun m _ => .bind .read fun t _ => ?_
    refine .bind (.lift (fun _ _ => trivial) fun _ => checkBatches_decodes) fun _ _ => ?_
    refine .bind (.lift (fun _ _ => trivial) fun _ => describeBatches_decodes) fun metas _ => ?_
    refine .bind (deleteBatchMetadataStartingAt_reads _) fun _ _ => .bind (writeBatch_reads ?_) fun _ _ => ?_
    · exact safe_append (safe_append (readable_deleteFrom _ _ _) (batchOps_safe _ _)) (safe_count _ _)
    · exact .update fun _ readable => readable

end

/-- A call of the streamer touches no entry of the tracker. -/
theorem onStreamer_reads {α : Type} {x : EStateM Error Db α} (part : Ensures ReadableDelayed (fun _ => True) Error.Decodes x) :
    KeepsReading (onStreamer x) := .zoom part (fun _ readable => readable) fun _ _ _ readable => readable

section
variable [Externals]

omit [Externals] in
theorem isAligned_reads (first count : Nat) : KeepsReading (isAligned first count) := by
  refine .bind getBatchCount_reads.attempt fun batchCount _ => ?_
  split
  · exact .pure trivial
  · refine .bind (findInboxBatchContainingMessage_reads count).attempt fun found _ => ?_
    split
    · exact .pure trivial
    · exact .pure trivial

omit [Externals] in
theorem alignWindow_reads (first : Nat) (m : BatchMetadata) (count : Nat) :
    KeepsReading (alignWindow first m count) := by
  unfold alignWindow
  split
  · exact .pure trivial
  · exact .bind (isAligned_reads first count) fun aligned _ => .bind .read fun _ _ => .pure trivial

theorem addSequencerBatchesAndStream_reads (batches : List SequencerInboxBatch) :
    KeepsReading (addSequencerBatchesAndStream batches) := by
  cases batches with
  | nil => exact .pure trivial
  | cons first later =>
    refine .bind (previousMetadata_reads _) fun m _ => .bind .read fun t _ => ?_
    refine .bind (.lift (fun _ _ => trivial) fun _ => readCount_decodes) fun dbCount _ => ?_
    refine .bind (alignWindow_reads _ m dbCount) fun window _ => ?_
    cases window with
    | none => exact .pure trivial
    | some window =>
      refine .bind .read fun t readable => .bind (.lift (fun _ _ => trivial) fun _ => streamBatches_decodes readable) ?_
      intro out _
      split
      · exact .pure trivial
      · refine .bind (.lift (fun _ _ => trivial) fun _ => readCount_decodes) fun count _ => ?_
        split
        · exact .throw rfl
        · refine .bind (onStreamer_reads ?_) fun _ _ => addSequencerBatches_reads _
          exact TransactionStreamer.addMessagesAndEndBatchImpl_ensures _ true out none

end

end InboxTracker
end NitroRs
