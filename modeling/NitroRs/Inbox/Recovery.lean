import NitroRs.Inbox.Ingested
import NitroRs.Inbox.StorageInvariant

/-! A stop between the two commits of an ingestion: the streamer has the messages and
the tracker does not have the batches. The next call sees a message count that is
not the one of the last batch. -/
namespace NitroRs
open KeyValue Outcome TransactionStreamer

/-- The tracker that a process starts with on a database. -/
def InboxTracker.restart (db : Db) : InboxTracker :=
  final (InboxTracker.initializeTracker (.new db))

/-- The streamer has all the messages already, each at its index. -/
def AllStored (db : Db) (c : Nat) (out : List MessageWithMetadataAndBlockInfo) : Prop :=
  (countDuplicateMessages db c out).1 = out.length

instance (db : Db) (c : Nat) (out : List MessageWithMetadataAndBlockInfo) :
    Decidable (AllStored db c out) := inferInstanceAs (Decidable (_ = _))

/-- There are `n` batches, the last with metadata `m`, and the message count is the
one recorded there. The tracker reads the metadata as it is stored. -/
structure Level (t : InboxTracker) (n : Nat) (m : BatchMetadata) : Prop where
  batches : (InboxTracker.repaired t.db).count .sequencerBatchCount = some n
  stored : storedPrevious t.db n = some m
  found : t.metadataBefore n = some m
  messages : t.db.count .messageCount = some m.messageCount

/-- The same messages and batches, as the message count and the batch count have them. -/
structure SameInbox (db db' : Db) : Prop where
  messages : db'.get .message = db.get .message
  messageCount : db'.count .messageCount = db.count .messageCount
  metadata : db'.get .sequencerBatchMeta = db.get .sequencerBatchMeta
  batchCount : (InboxTracker.repaired db').count .sequencerBatchCount =
    (InboxTracker.repaired db).count .sequencerBatchCount

theorem restart_spec (db : Db) : (InboxTracker.restart db).db.get = db.get ∧
    (∀ c, (InboxTracker.restart db).db.count c = some ((db.count c).getD 0)) ∧
    ∀ n, (InboxTracker.restart db).metadataBefore n = storedPrevious db n := by
  obtain ⟨db', started, tables, counters⟩ := InboxTracker.initializeTracker_spec (.new db)
  rw [InboxTracker.restart, started, final_ok]
  refine ⟨tables, counters, fun n => ?_⟩
  cases n with
  | zero => rfl
  | succ n =>
    rw [InboxTracker.metadataBefore, InboxTracker.metadataAt]
    change ((InboxTracker.new db).batchMetaCache.peek n).or (db'.get .sequencerBatchMeta n) = _
    rw [tables]
    rfl

namespace InboxTracker

theorem repaired_count_congr {db db' : Db}
    (metas : db'.get .sequencerBatchMeta = db.get .sequencerBatchMeta)
    (count : db'.count .sequencerBatchCount = db.count .sequencerBatchCount) :
    (repaired db').count .sequencerBatchCount = (repaired db).count .sequencerBatchCount := by
  rw [(repaired_spec db').2.2, (repaired_spec db).2.2, count]
  congr 1
  funext n
  exact repairCount_congr (fun i => by rw [Store.has, metas, Store.has]) n

section
variable [Externals]

theorem getDelayedAcc_congr {db db' : Db} (tables : db'.get = db.get) :
    getDelayedAcc db' = getDelayedAcc db := by
  funext i
  rw [getDelayedAcc, getDelayedAcc, tables]

omit [Externals] in
theorem getDelayedMessage_congr {db db' : Db} (tables : db'.get = db.get) :
    getDelayedMessage db' = getDelayedMessage db := by
  funext i
  simp only [getDelayedMessage, getDelayedMessageAccumulatorAndParentChainBlockNumber,
    legacyGetDelayedMessageAndAccumulator, tables]

theorem checkBatches_congr {db db' : Db} (accs : getDelayedAcc db' = getDelayedAcc db) (pos : Nat)
    (acc : B256) (batches : List SequencerInboxBatch) :
    checkBatches db' pos acc batches = checkBatches db pos acc batches := by
  induction batches generalizing pos acc with
  | nil => rfl
  | cons b later ih => simp only [checkBatches, accs, ih]

theorem streamBatches_congr {db db' : Db} (tables : db'.get = db.get)
    (batches : List SequencerInboxBatch) (read : Nat) :
    streamBatches db' batches read = streamBatches db batches read := by
  rw [streamBatches, streamBatches, getDelayedMessage_congr tables]

end

/-- The database once the batches behind `m` are recorded. -/
def recorded (db : Db) (m : BatchMetadata) (pos : Nat) (metas : List (Nat × BatchMetadata)) : Db :=
  (db.write (db.deleteFrom .sequencerBatchMeta (pos + metas.length))).write
    (db.deleteFrom .delayedSequenced (m.delayedMessageCount + 1) ++ batchOps m metas ++
      [.setCount .sequencerBatchCount (pos + metas.length)])

theorem get_recorded_congr {db db' : Db} (tables : db'.get = db.get) (m : BatchMetadata) (pos : Nat)
    (metas : List (Nat × BatchMetadata)) :
    (recorded db' m pos metas).get = (recorded db m pos metas).get := by
  have deleted (t : Table) (start : Nat) : db'.deleteFrom t start = db.deleteFrom t start := by
    rw [Store.deleteFrom, Store.deleteFrom, Store.range, Store.range, Store.table_eq_of_get_eq tables]
  rw [recorded, recorded, deleted, deleted]
  exact Store.get_write_congr _ (Store.get_write_congr _ tables)

theorem count_recorded (db : Db) (m : BatchMetadata) (pos : Nat)
    (metas : List (Nat × BatchMetadata)) (c : Counter) : (recorded db m pos metas).count c =
      if c = .sequencerBatchCount then some (pos + metas.length) else db.count c := by
  simp only [recorded, Store.write_append, Store.write_cons, Store.write_nil,
    Store.count_apply_setCount]
  split
  · rfl
  · rename_i other
    rw [Store.count_write_of_untouched, Store.count_write_deleteFrom, Store.count_write_deleteFrom]
    intro op member place
    have listed := batchOps_place m metas op member
    rw [place] at listed
    simp [other] at listed

theorem get_recorded_message (db : Db) (m : BatchMetadata) (pos : Nat)
    (metas : List (Nat × BatchMetadata)) :
    (recorded db m pos metas).get .message = db.get .message := by
  simp only [recorded, Store.write_append, Store.write_cons, Store.write_nil,
    Store.get_apply_setCount]
  rw [Store.get_write_of_untouched, Store.get_write_deleteFrom_of_ne _ _ _ (by decide),
    Store.get_write_deleteFrom_of_ne _ _ _ (by decide)]
  intro op member place
  have listed := batchOps_place m metas op member
  rw [place] at listed
  simp at listed

section
variable [Externals]

theorem describeBatches_length {last : BatchMetadata} {batches : List SequencerInboxBatch}
    {metas : List (Nat × BatchMetadata)} (described : describeBatches last batches = .ok metas) :
    metas.length = batches.length := by
  induction batches generalizing last metas with
  | nil =>
    cases described
    rfl
  | cons b later ih =>
    rw [describeBatches] at described
    cases parsed : parseSequencerMessage b.serialized with
    | error e =>
      rw [parsed] at described
      contradiction
    | ok seq =>
      rw [parsed] at described
      dsimp only at described
      cases rest : describeBatches (batchMetadata last b seq) later with
      | error e =>
        rw [rest] at described
        contradiction
      | ok metas' =>
        rw [rest] at described
        cases described
        rw [List.length_cons, List.length_cons, ih rest]

/-- Batches that pass the checks are recorded. -/
theorem addSequencerBatches_recorded {t t₀ : InboxTracker} {first : SequencerInboxBatch}
    {rest : List SequencerInboxBatch} {m : BatchMetadata} {metas : List (Nat × BatchMetadata)}
    (previous : previousMetadata first.sequenceNumber t = .ok m t₀)
    (checked : checkBatches t.db first.sequenceNumber m.accumulator (first :: rest) = .ok ())
    (described : describeBatches m (first :: rest) = .ok metas) :
    ∃ cache, addSequencerBatches (first :: rest) t =
      .ok () ⟨recorded t.db m first.sequenceNumber metas, cache⟩ := by
  have same := (previousMetadata_eq_ok previous).2
  obtain ⟨t₂, deleted, db₂, _⟩ := deleteBatchMetadataStartingAt_spec
    (first.sequenceNumber + (first :: rest).length) t₀
  rw [addSequencerBatches, bind_ok previous, bind_read, same, checked, bind_lift_ok, described,
    bind_lift_ok, bind_ok deleted, bind_ok (writeBatch_apply _ _), update_apply]
  refine ⟨metas.foldl (fun cache entry => cache.put entry.1 entry.2) t₂.batchMetaCache, ?_⟩
  rw [recorded, db₂, same, describeBatches_length described]

theorem addSequencerBatches_eq_recorded {t t' : InboxTracker} {first : SequencerInboxBatch}
    {rest : List SequencerInboxBatch}
    (accepted : addSequencerBatches (first :: rest) t = .ok () t') :
    ∃ m t₀ metas, previousMetadata first.sequenceNumber t = .ok m t₀ ∧
      checkBatches t.db first.sequenceNumber m.accumulator (first :: rest) = .ok () ∧
      describeBatches m (first :: rest) = .ok metas ∧
      t'.db = recorded t.db m first.sequenceNumber metas := by
  obtain ⟨m, t₀, metas, previous, checked, described, _⟩ := addSequencerBatches_eq_ok accepted
  rw [(previousMetadata_eq_ok previous).2] at checked
  obtain ⟨cache, recorded⟩ := addSequencerBatches_recorded previous checked described
  cases accepted.symm.trans recorded
  exact ⟨m, t₀, _, previous, checked, described, rfl⟩

end

/-- A message count at or past the end of the last batch is in no batch. -/
theorem isAligned_past {t : InboxTracker} {n c : Nat} {m : BatchMetadata} (firstSeq : Nat)
    (counted : (repaired t.db).count .sequencerBatchCount = some (n + 1))
    (last : t.metadataAt n = some m) (past : m.messageCount ≤ c) :
    ∃ t', isAligned firstSeq c t = .ok false t' := by
  obtain ⟨tables, _, _⟩ := repaired_spec t.db
  have count := getBatchCount_repaired counted
  have again := getBatchCount_repaired
    (show (repaired { t with db := repaired t.db }.db).count .sequencerBatchCount = some (n + 1) by
      rw [repaired_idem, counted])
  have found : ∃ t₂, findInboxBatchContainingMessage c { t with db := repaired t.db } =
      .ok (0, false) t₂ := by
    rw [findInboxBatchContainingMessage, bind_ok again, if_neg (Nat.succ_ne_zero n),
      Nat.add_sub_cancel, repaired_idem]
    rcases getBatchMetadata_cases n { t with db := repaired t.db } with
      ⟨m', cache, here, read, _⟩ | ⟨missing, _⟩
    · have same : m' = m := by
        rw [metadataAt, tables] at here
        exact Option.some.inj (here.symm.trans last)
      have message : getBatchMessageCount n { t with db := repaired t.db } =
          .ok m.messageCount ⟨repaired t.db, cache⟩ := by
        rw [getBatchMessageCount, bind_ok read, pure_apply, same]
      rw [bind_ok message, if_pos past]
      exact ⟨_, rfl⟩
    · rw [metadataAt, tables] at missing
      rw [metadataAt, missing] at last
      contradiction
  obtain ⟨t₂, found⟩ := found
  have warm : ¬ ((Except.ok (n + 1) : Except Error Nat).toOption.getD 0 = 0 ∧ firstSeq = 0 ∧ 0 < c) :=
    fun cold => Nat.succ_ne_zero n cold.1
  exact ⟨t₂, by rw [isAligned, bind_ok (attempt_ok count), if_neg warm, bind_ok (attempt_ok found)]; rfl⟩

end InboxTracker
section
variable [Externals] {t t' t₂ : InboxTracker} {n c : Nat} {m : BatchMetadata}
  {first : SequencerInboxBatch} {rest : List SequencerInboxBatch}
  {out : List MessageWithMetadataAndBlockInfo}

omit [Externals] in
/-- Reading the metadata of a batch caches nothing but what is stored. -/
theorem previousMetadata_known (stored : storedPrevious t.db n = some m)
    (found : t.metadataBefore n = some m) : ∃ cache,
    InboxTracker.previousMetadata n t = .ok m ⟨t.db, cache⟩ ∧
    ∀ db : Db, db.get .sequencerBatchMeta = t.db.get .sequencerBatchMeta →
      (⟨db, cache⟩ : InboxTracker).metadataBefore n = some m := by
  cases n with
  | zero =>
    cases stored
    exact ⟨t.batchMetaCache, rfl, fun _ _ => rfl⟩
  | succ n =>
    rcases InboxTracker.getBatchMetadata_cases n t with ⟨m', cache, here, read, known⟩ | ⟨missing, _⟩
    · cases found.symm.trans here
      refine ⟨cache, ?_, fun db same => ?_⟩
      · rw [InboxTracker.previousMetadata, if_pos (Nat.succ_pos n), Nat.add_sub_cancel, read]
      · rw [InboxTracker.metadataBefore, InboxTracker.metadataAt, same]
        cases peeked : cache.peek n with
        | none => exact stored
        | some v => exact (known n v peeked).symm.trans found
    · rw [InboxTracker.metadataBefore, missing] at found
      contradiction

theorem Streams.reached (streams : Streams t (first :: rest) c out t₂) :
    InboxTracker.addSequencerBatchesAndStream (first :: rest) t =
      (InboxTracker.onStreamer (addConfirmedMessagesAndEndBatch c out none) >>= fun _ =>
        InboxTracker.addSequencerBatches (first :: rest)) t₂ := by
  obtain ⟨_, _, _, ⟨silent, _⟩ | ⟨_, _, _, only, reached⟩⟩ := ingest_cases t first rest
  · exact absurd streams (silent c out t₂)
  · obtain ⟨rfl, rfl, rfl⟩ := only _ _ _ streams
    exact reached

/-- A level tracker streams a window from where the last batch ended. -/
theorem Level.streams (level : Level t n m) (next : first.sequenceNumber = n)
    (streams : Streams t (first :: rest) c out t₂) :
    c = m.messageCount ∧ t₂.db = t.db ∧
      InboxTracker.streamBatches t.db (first :: rest) m.delayedMessageCount = .ok out ∧
      ∀ db : Db, db.get .sequencerBatchMeta = t.db.get .sequencerBatchMeta →
        ({ t₂ with db } : InboxTracker).metadataBefore n = some m := by
  obtain ⟨cache, previous, known⟩ := previousMetadata_known level.stored level.found
  obtain ⟨_, _, m', t₁, read, ⟨rfl, rfl⟩, previous', aligned, given⟩ := streams.path
  rw [next] at previous'
  cases previous.symm.trans previous'
  cases level.messages.symm.trans streams.counted
  rw [InboxTracker.alignWindow, if_pos rfl] at aligned
  cases aligned
  exact ⟨rfl, rfl, given, known⟩

theorem Level.exists_streams (level : Level t n m) (next : first.sequenceNumber = n)
    (given : InboxTracker.streamBatches t.db (first :: rest) m.delayedMessageCount = .ok out)
    (nonempty : out ≠ []) : ∃ t₂, Streams t (first :: rest) m.messageCount out t₂ := by
  obtain ⟨cache, previous, _⟩ := previousMetadata_known level.stored level.found
  refine ⟨⟨t.db, cache⟩, level.messages, nonempty, first, rest, m, ⟨t.db, cache⟩,
    m.delayedMessageCount, rfl, next ▸ previous, ?_, given⟩
  rw [InboxTracker.alignWindow, if_pos rfl, pure_apply]

omit [Externals] in
theorem restart_batchCount {db : Db}
    (batches : (InboxTracker.repaired db).count .sequencerBatchCount = some n) :
    (InboxTracker.repaired (InboxTracker.restart db).db).count .sequencerBatchCount = some n := by
  obtain ⟨tables, counters, _⟩ := restart_spec db
  refine (InboxTracker.repaired_count_congr (by rw [tables]) ?_).trans batches
  rw [(InboxTracker.repaired_spec db).2.2] at batches
  rw [counters]
  cases some : db.count .sequencerBatchCount with
  | none =>
    rw [some] at batches
    contradiction
  | some k => rfl

omit [Externals] in
/-- A restart keeps a tracker level. -/
theorem Level.restart (level : Level t n m) : Level (InboxTracker.restart t.db) n m := by
  obtain ⟨tables, counters, read⟩ := restart_spec t.db
  obtain ⟨batches, stored, _, messages⟩ := level
  refine ⟨restart_batchCount batches, ?_, (read n).trans stored, ?_⟩
  · cases n with
    | zero => exact stored
    | succ n => rw [storedPrevious, tables]; exact stored
  · rw [counters, messages, Option.getD_some]

omit [Externals] in
theorem countDuplicateMessages_congr {db db' : Db} (messages : db'.get .message = db.get .message)
    (idx : Nat) (ms : List MessageWithMetadataAndBlockInfo) :
    countDuplicateMessages db' idx ms = countDuplicateMessages db idx ms := by
  induction ms generalizing idx with
  | nil => rfl
  | cons m ms ih => simp only [countDuplicateMessages, messages, ih]

omit [Externals] in
/-- The streamer takes messages that it has already and changes nothing. -/
theorem addConfirmed_of_allStored {db : Db} (counted : db.count .messageCount = some c)
    (all : AllStored db c out) : addConfirmedMessagesAndEndBatch c out none db = .ok () db := by
  have count : messageCountOrZero db = c := by rw [messageCountOrZero, counted, Option.getD_some]
  rcases counts : countDuplicateMessages db c out with ⟨dups, reorg⟩
  rw [AllStored, counts] at all
  obtain rfl := (countDuplicateMessages_spec db c out counts).2.1 all
  subst all
  rw [addConfirmedMessagesAndEndBatch, addMessagesAndEndBatchImpl, bind_read, count,
    if_neg (not_not.mpr rfl), counts]
  simp only [Bool.and_false, Bool.false_eq_true, if_false, List.drop_length, checkDelayedReads,
    bind_lift_ok, List.isEmpty_nil, if_true, pure_apply]

omit [Externals] in
/-- What the streamer's commit leaves when the messages are stored already and when not. -/
theorem committed_cases {db db' : Db} (counted : db.count .messageCount = some c)
    (committed : addConfirmedMessagesAndEndBatch c out none db = .ok () db') :
    Agree .tracker db db' ∧ ((AllStored db c out ∧ db' = db) ∨
      (¬ AllStored db c out ∧ db'.count .messageCount = some (c + out.length))) := by
  have count : messageCountOrZero db = c := by rw [messageCountOrZero, counted, Option.getD_some]
  rcases addConfirmed_spec count out with ⟨e, refused⟩ | ⟨kept, all⟩ |
    ⟨db₂, accepted, fresh, count', _, _, tracker⟩
  · rw [committed] at refused
    contradiction
  · cases committed.symm.trans kept
    have bound := (countDuplicateMessages_spec db c out (Prod.eta _).symm).1
    exact ⟨.refl .., .inl ⟨by rw [AllStored]; omega, rfl⟩⟩
  · cases committed.symm.trans accepted
    exact ⟨tracker, .inr ⟨by rw [AllStored]; omega, count'⟩⟩

/-- The second half of the retry does what the second half of the first call did. -/
theorem recorded_again {u : InboxTracker} {db : Db} {metas : List (Nat × BatchMetadata)}
    (tables : u.db.get = db.get) (count : u.db.count .messageCount = db.count .messageCount)
    (read : u.metadataBefore first.sequenceNumber = some m)
    (checked : InboxTracker.checkBatches db first.sequenceNumber m.accumulator (first :: rest) =
      .ok ())
    (described : InboxTracker.describeBatches m (first :: rest) = .ok metas) :
    ∃ u', InboxTracker.addSequencerBatches (first :: rest) u = .ok () u' ∧
      SameInbox (InboxTracker.recorded db m first.sequenceNumber metas) u'.db := by
  have checked' := (InboxTracker.checkBatches_congr (InboxTracker.getDelayedAcc_congr tables) _ _ _).trans checked
  rcases InboxTracker.previousMetadata_spec first.sequenceNumber u with
    ⟨m', cache, found, previous⟩ | ⟨missing, _⟩
  · cases read.symm.trans found
    obtain ⟨cache', again⟩ := InboxTracker.addSequencerBatches_recorded previous checked' described
    have same := InboxTracker.get_recorded_congr tables m first.sequenceNumber metas
    refine ⟨_, again, by rw [same], ?_, by rw [same],
      InboxTracker.repaired_count_congr (by rw [same]) ?_⟩
    · simp only [InboxTracker.count_recorded, count]
    · simp only [InboxTracker.count_recorded, if_true]
  · rw [missing] at read
    contradiction

omit [Externals] in
/-- Without batches a window that starts at 0 is streamed behind the stored messages. -/
theorem isAligned_cold {t : InboxTracker} {c : Nat}
    (none : (InboxTracker.repaired t.db).count .sequencerBatchCount = some 0) (some : 0 < c) :
    InboxTracker.isAligned 0 c t = .ok true { t with db := InboxTracker.repaired t.db } := by
  have cold : (Except.ok 0 : Except Error Nat).toOption.getD 0 = 0 ∧ 0 = 0 ∧ 0 < c :=
    ⟨rfl, rfl, some⟩
  rw [InboxTracker.isAligned, bind_ok (attempt_ok (getBatchCount_repaired none)), if_pos cold,
    pure_apply]

omit [Externals] in
/-- The retry of a first batch is streamed from the stored delayed count. -/
theorem cold_aligned {db : Db}
    (none : (InboxTracker.repaired db).count .sequencerBatchCount = some 0)
    (counted : db.count .messageCount = some c) (some : 0 < c) :
    ∃ r, InboxTracker.alignWindow 0 .zero c (InboxTracker.restart db) =
        .ok (.some (c, (db.count .delayedMessageCount).getD 0)) r ∧
      r.db.get = db.get ∧ r.db.count .messageCount = .some c ∧
      (InboxTracker.repaired r.db).count .sequencerBatchCount = .some 0 := by
  obtain ⟨tables, counters, _⟩ := restart_spec db
  have none' := restart_batchCount none
  obtain ⟨repairedTables, repairedCounters, _⟩ :=
    InboxTracker.repaired_spec (InboxTracker.restart db).db
  refine ⟨{ InboxTracker.restart db with db := InboxTracker.repaired (InboxTracker.restart db).db },
    ?_, repairedTables.trans tables, ?_, by rwa [InboxTracker.repaired_idem]⟩
  · have apart : c ≠ BatchMetadata.zero.messageCount := some.ne'
    rw [InboxTracker.alignWindow, if_neg apart, bind_ok (isAligned_cold none' some), bind_read,
      if_pos rfl, pure_apply, InboxTracker.realignedDelayed,
      if_pos (show BatchMetadata.zero.delayedMessageCount = 0 from rfl), InboxTracker.getDelayedCount,
      Db.readCount, repairedCounters _ (by decide), counters]
  · rw [repairedCounters _ (by decide), counters, counted, Option.getD_some]

omit [Externals] in
theorem onStreamer_eq_ok {α : Type} {x : EStateM Error Db α} {a : α}
    (ran : InboxTracker.onStreamer x t = .ok a t') : ∃ db, x t.db = .ok a db ∧ { t with db } = t' := by
  cases inner : x t.db with
  | ok b db =>
    rw [InboxTracker.onStreamer_ok inner] at ran
    cases ran
    exact ⟨db, rfl, rfl⟩
  | error e db =>
    rw [InboxTracker.onStreamer_error inner] at ran
    contradiction

/-- What the first call has done by the end: the batches recorded behind `m`. -/
theorem Level.accepted {db' : Db} (level : Level t n m) (next : first.sequenceNumber = n)
    (accepted : InboxTracker.addSequencerBatchesAndStream (first :: rest) t = .ok () t')
    (streams : Streams t (first :: rest) c out t₂)
    (committed : addConfirmedMessagesAndEndBatch c out none t₂.db = .ok () db') :
    (∃ metas, InboxTracker.checkBatches db' n m.accumulator (first :: rest) = .ok () ∧
      InboxTracker.describeBatches m (first :: rest) = .ok metas ∧
      t'.db = InboxTracker.recorded db' m n metas) ∧
    (InboxTracker.repaired t'.db).count .sequencerBatchCount = some (n + (first :: rest).length) := by
  obtain ⟨rfl, same, given, known⟩ := level.streams next streams
  rw [streams.reached, bind_ok (InboxTracker.onStreamer_ok committed)] at accepted
  obtain ⟨m', t₃, metas, previous, checked, described, last⟩ :=
    InboxTracker.addSequencerBatches_eq_recorded accepted
  have counted : t₂.db.count .messageCount = some m.messageCount := by rw [same, level.messages]
  have tracker := (committed_cases counted committed).1
  have found := (previousMetadata_eq_ok previous).1
  rw [next, known db' (by rw [tracker.get _ rfl, same])] at found
  cases found
  rw [next] at checked last
  exact ⟨⟨metas, checked, described, last⟩, next ▸ (addSequencerBatches_stored accepted).2⟩

/-- With a batch in front, the retry skips the window and no batch is added. -/
theorem retry_skips {db' : Db} {k : Nat}
    (batches : (InboxTracker.repaired db').count .sequencerBatchCount = some (k + 1))
    (stored : db'.get .sequencerBatchMeta k = some m) (next : first.sequenceNumber = k + 1)
    (counted : db'.count .messageCount = some c) (past : m.messageCount < c)
    (retried : InboxTracker.addSequencerBatchesAndStream (first :: rest)
      (InboxTracker.restart db') = .ok () t') :
    (InboxTracker.repaired t'.db).count .sequencerBatchCount = some (k + 1) := by
  obtain ⟨tables, counters, read⟩ := restart_spec db'
  have stored' : storedPrevious (InboxTracker.restart db').db (k + 1) = some m := by
    rw [storedPrevious, tables, stored]
  have batches' := restart_batchCount batches
  obtain ⟨cache, previous, known⟩ := previousMetadata_known stored' ((read _).trans stored)
  obtain ⟨t₂, apart⟩ := @InboxTracker.isAligned_past ⟨_, cache⟩ k c m (k + 1) batches'
    (known _ rfl) past.le
  have skipped : InboxTracker.alignWindow (k + 1) m c ⟨(InboxTracker.restart db').db, cache⟩ =
      .ok none t₂ := by
    rw [InboxTracker.alignWindow, if_neg past.ne', bind_ok apart, bind_read]
    rfl
  obtain ⟨_, _, skipped', db₂, _⟩ := InboxTracker.alignWindow_spec (k + 1) m c
    ⟨(InboxTracker.restart db').db, cache⟩
  cases skipped.symm.trans skipped'
  have counted' : (InboxTracker.restart db').db.count .messageCount = some c := by
    rw [counters, counted, Option.getD_some]
  rw [← next] at previous skipped
  rw [ingest_aligned none previous counted' skipped, Option.elim_none] at retried
  cases retried
  rw [db₂, if_neg past.ne', InboxTracker.repaired_idem, batches']

/-- Where nothing was committed the retry is the call over again. -/
theorem Level.retry_uncommitted (level : Level t n m) (next : first.sequenceNumber = n)
    (given : InboxTracker.streamBatches t.db (first :: rest) m.delayedMessageCount = .ok out) (nonempty : out ≠ [])
    (all : AllStored t.db m.messageCount out) {metas : List (Nat × BatchMetadata)}
    (checked : InboxTracker.checkBatches t.db n m.accumulator (first :: rest) = .ok ())
    (described : InboxTracker.describeBatches m (first :: rest) = .ok metas) :
    ∃ t'', InboxTracker.addSequencerBatchesAndStream (first :: rest) (InboxTracker.restart t.db) = .ok () t'' ∧
      SameInbox (InboxTracker.recorded t.db m n metas) t''.db := by
  obtain ⟨tables, _⟩ := restart_spec t.db
  have level' := level.restart
  obtain ⟨r, streams'⟩ := level'.exists_streams next
    ((InboxTracker.streamBatches_congr tables _ _).trans given) nonempty
  obtain ⟨_, same', _, known'⟩ := level'.streams next streams'
  have messages : r.db.get .message = t.db.get .message := by rw [same', tables]
  have all' : AllStored r.db m.messageCount out := by
    rwa [AllStored, countDuplicateMessages_congr messages]
  have kept := addConfirmed_of_allStored (by rw [same', level'.messages]) all'
  have count : r.db.count .messageCount = t.db.count .messageCount := by
    rw [same', level'.messages, level.messages]
  obtain ⟨t'', again, inbox⟩ := recorded_again (by rw [same', tables]) count
    (next ▸ known' r.db (by rw [same'])) (next ▸ checked) described
  refine ⟨t'', ?_, next ▸ inbox⟩
  rw [streams'.reached, bind_ok (InboxTracker.onStreamer_ok kept), again]

/-- The retry of a first batch: a store with messages and no batch. -/
structure Cold (db : Db) (count : Nat) : Prop where
  noBatches : (InboxTracker.repaired db).count .sequencerBatchCount = some 0
  counted : db.count .messageCount = some count
  positive : 0 < count

/-- The retry of a first batch comes to the streamer with what it multiplexes. -/
theorem Cold.streams {db : Db} (cold : Cold db c) (rest : List SequencerInboxBatch)
    (next : first.sequenceNumber = 0) :
    ∃ r : InboxTracker, r.db.get = db.get ∧ r.db.count .messageCount = .some c ∧
      (InboxTracker.repaired r.db).count .sequencerBatchCount = .some 0 ∧
      InboxTracker.addSequencerBatchesAndStream (first :: rest) (InboxTracker.restart db) =
        InboxTracker.ingestWindow (first :: rest) c ((db.count .delayedMessageCount).getD 0) r ∧
      ∀ again, again ≠ [] → InboxTracker.streamBatches db (first :: rest)
        ((db.count .delayedMessageCount).getD 0) = .ok again →
          Streams (InboxTracker.restart db) (first :: rest) c again r := by
  obtain ⟨r, aligned, tables, counted, none⟩ := cold_aligned cold.noBatches cold.counted cold.positive
  have previous : InboxTracker.previousMetadata first.sequenceNumber (InboxTracker.restart db) =
      .ok .zero (InboxTracker.restart db) := by rw [next]; rfl
  have before : (InboxTracker.restart db).db.count .messageCount = .some c := by
    rw [(restart_spec db).2.1, cold.counted, Option.getD_some]
  have aligned : InboxTracker.alignWindow first.sequenceNumber .zero c (InboxTracker.restart db) =
      .ok (.some (c, (db.count .delayedMessageCount).getD 0)) r := by rw [next, aligned]
  have ran : InboxTracker.addSequencerBatchesAndStream (first :: rest) (InboxTracker.restart db) =
      InboxTracker.ingestWindow (first :: rest) c ((db.count .delayedMessageCount).getD 0) r := by
    rw [ingest_aligned _ previous before aligned, Option.elim_some]
  refine ⟨r, tables, counted, none, ran, fun again nonempty given => ?_⟩
  exact ⟨before, nonempty, first, rest, .zero, _, _, rfl, previous, aligned,
    (InboxTracker.streamBatches_congr tables _ _).trans given⟩

/-- A cold retry records the batches exactly when the streamer has what it multiplexes. -/
theorem Cold.retry_iff {db : Db} (cold : Cold db c) (next : first.sequenceNumber = 0)
    {metas : List (Nat × BatchMetadata)}
    (checked : InboxTracker.checkBatches db 0 BatchMetadata.zero.accumulator (first :: rest) = .ok ())
    (described : InboxTracker.describeBatches .zero (first :: rest) = .ok metas)
    (batches : (InboxTracker.repaired (InboxTracker.recorded db .zero 0 metas)).count .sequencerBatchCount =
      some (0 + (first :: rest).length)) :
    (∃ t'', InboxTracker.addSequencerBatchesAndStream (first :: rest) (InboxTracker.restart db) = .ok () t'' ∧
        SameInbox (InboxTracker.recorded db .zero 0 metas) t''.db) ↔
      ∃ again, again ≠ [] ∧ InboxTracker.streamBatches db (first :: rest)
        ((db.count .delayedMessageCount).getD 0) = .ok again ∧ AllStored db c again := by
  obtain ⟨r, tables, counted, none, ran, streams⟩ := cold.streams rest next
  have messages : r.db.get .message = db.get .message := by rw [tables]
  have stored (again : List MessageWithMetadataAndBlockInfo) : AllStored r.db c again ↔ AllStored db c again := by
    rw [AllStored, AllStored, countDuplicateMessages_congr messages]
  constructor
  · rintro ⟨t'', retried, inbox⟩
    have reached := retried
    rw [ran, InboxTracker.ingestWindow, bind_read] at reached
    obtain ⟨again, _, streamed, rest'⟩ := bind_eq_ok.mp reached
    obtain ⟨given, rfl⟩ := lift_eq_ok.mp streamed
    rw [InboxTracker.streamBatches_congr tables] at given
    by_cases nonempty : again = []
    · rw [nonempty, List.isEmpty_nil, if_pos rfl] at rest'
      cases rest'
      rw [inbox.batchCount, batches] at none
      exact absurd (Option.some.inj none) (by simp)
    · refine ⟨again, nonempty, given, (stored again).mp ?_⟩
      rw [(streams again nonempty given).reached] at retried
      obtain ⟨_, r₂, appended, recorded⟩ := bind_eq_ok.mp retried
      obtain ⟨db₂, kept, rfl⟩ := onStreamer_eq_ok appended
      obtain ⟨_, ⟨all, _⟩ | ⟨_, longer⟩⟩ := committed_cases counted kept
      · exact all
      · obtain ⟨_, _, metas', _, _, _, last'⟩ := InboxTracker.addSequencerBatches_eq_recorded recorded
        have same := inbox.messageCount
        rw [last', InboxTracker.count_recorded, InboxTracker.count_recorded, if_neg (by decide),
          if_neg (by decide), cold.counted, longer] at same
        have more := List.length_pos_iff.mpr nonempty
        have equal := Option.some.inj same
        omega
  · rintro ⟨again, nonempty, given, all⟩
    have kept := addConfirmed_of_allStored counted ((stored again).mpr all)
    obtain ⟨t'', done, inbox⟩ := recorded_again tables (counted.trans cold.counted.symm)
      (show r.metadataBefore first.sequenceNumber = .some .zero by rw [next]; rfl) (next ▸ checked) described
    refine ⟨t'', ?_, next ▸ inbox⟩
    rw [(streams again nonempty given).reached, bind_ok (InboxTracker.onStreamer_ok kept), done]

/-- The retry after a stop between the two commits ends like the uninterrupted call
exactly when it has nothing to append: the streamer had the messages before the
call, or, for a first batch, has also those that the retry multiplexes from the
stored delayed count. -/
theorem retry_recovers_iff {db' : Db} (level : Level t n m) (next : first.sequenceNumber = n)
    (accepted : InboxTracker.addSequencerBatchesAndStream (first :: rest) t = .ok () t')
    (streams : Streams t (first :: rest) c out t₂)
    (committed : addConfirmedMessagesAndEndBatch c out none t₂.db = .ok () db') :
    (∃ t'', InboxTracker.addSequencerBatchesAndStream (first :: rest) (InboxTracker.restart db') =
        .ok () t'' ∧ SameInbox t'.db t''.db) ↔
      AllStored t.db c out ∨ (n = 0 ∧ ∃ again, again ≠ [] ∧
        InboxTracker.streamBatches db' (first :: rest) ((db'.count .delayedMessageCount).getD 0) =
          .ok again ∧ AllStored db' out.length again) := by
  obtain ⟨⟨metas, checked, described, last⟩, batches⟩ :=
    level.accepted next accepted streams committed
  obtain ⟨rfl, same, given, known⟩ := level.streams next streams
  have counted : t₂.db.count .messageCount = some m.messageCount := by rw [same, level.messages]
  obtain ⟨tracker, outcome⟩ := committed_cases counted committed
  rw [same] at tracker outcome
  by_cases all : AllStored t.db m.messageCount out
  · -- nothing was committed: the retry is the call over again
    obtain ⟨_, rfl⟩ : _ ∧ db' = t.db := outcome.resolve_right fun fresh => fresh.1 all
    rw [last]
    exact iff_of_true (level.retry_uncommitted next given streams.nonempty all checked described) (.inl all)
  · have counted' := (outcome.resolve_left fun kept => all kept.1).2
    have some : 0 < out.length := List.length_pos_iff.mpr streams.nonempty
    have tables := tracker.get .sequencerBatchMeta rfl
    have batches' : (InboxTracker.repaired db').count .sequencerBatchCount = .some n :=
      (InboxTracker.repaired_count_congr tables (tracker.count _ rfl)).trans level.batches
    rw [or_iff_right all]
    cases n with
    | succ k =>
      refine iff_of_false ?_ fun cold => Nat.succ_ne_zero k cold.1
      rintro ⟨t'', retried, inbox⟩
      have stored : db'.get .sequencerBatchMeta k = .some m := by
        rw [tables]
        exact level.stored
      have skipped := retry_skips batches' stored next counted' (by omega) retried
      rw [inbox.batchCount, batches] at skipped
      have longer := Option.some.inj skipped
      rw [List.length_cons] at longer
      omega
    | zero =>
      cases level.stored
      have cold : Cold db' out.length := ⟨batches', counted'.trans (congrArg _ (Nat.zero_add _)), some⟩
      rw [and_iff_right rfl, last]
      rw [last] at batches
      exact cold.retry_iff next checked described batches

end

section Samples
open Codecs

/-- The messages of a window that is streamed from no delayed message. -/
def sampleOut (db : Db) (b : SequencerInboxBatch) : List MessageWithMetadataAndBlockInfo :=
  match InboxTracker.streamBatches db [b] 0 with
  | .ok out => out
  | .error _ => []

theorem streamBatches_sampleOut {db : Db} {b : SequencerInboxBatch}
    (done : (InboxTracker.streamBatches db [b] 0).isOk = true) :
    InboxTracker.streamBatches db [b] 0 = .ok (sampleOut db b) := by
  rw [sampleOut]
  cases given : InboxTracker.streamBatches db [b] 0 with
  | ok out => rfl
  | error e =>
    rw [given] at done
    contradiction

/-- A tracker without batches whose first message is stored past the message count. -/
def aheadTracker : InboxTracker :=
  { initialTracker with
    db := Store.write
      (final (addConfirmedMessagesAndEndBatch 0 (sampleOut initialTracker.db (batch 0 0 [[0, 7]])) none
        initialTracker.db))
      [.setCount .messageCount 0] }

/-- A window that the streamer has already is recorded by the retry. -/
theorem stored_window_recovers : ∃ t' t₂ db',
    InboxTracker.addSequencerBatchesAndStream [batch 0 0 [[0, 7]]] aheadTracker = .ok () t' ∧
    Streams aheadTracker [batch 0 0 [[0, 7]]] 0 (sampleOut aheadTracker.db (batch 0 0 [[0, 7]])) t₂ ∧
    addConfirmedMessagesAndEndBatch 0 (sampleOut aheadTracker.db (batch 0 0 [[0, 7]])) none t₂.db =
      .ok () db' ∧
    ∃ t'', InboxTracker.addSequencerBatchesAndStream [batch 0 0 [[0, 7]]]
      (InboxTracker.restart db') = .ok () t'' ∧ SameInbox t'.db t''.db := by
  have level : Level aheadTracker 0 .zero := ⟨by decide +kernel, rfl, rfl, by decide +kernel⟩
  obtain ⟨_, accepted⟩ := eq_ok_of_isOk (show isOk (InboxTracker.addSequencerBatchesAndStream
    [batch 0 0 [[0, 7]]] aheadTracker) = true by decide +kernel)
  obtain ⟨t₂, streams⟩ := @Level.exists_streams _ _ _ _ (batch 0 0 [[0, 7]]) [] _ level rfl
    (streamBatches_sampleOut (by decide +kernel)) (by decide +kernel)
  have all : AllStored aheadTracker.db 0 (sampleOut aheadTracker.db (batch 0 0 [[0, 7]])) := by
    decide +kernel
  have kept : addConfirmedMessagesAndEndBatch 0 (sampleOut aheadTracker.db (batch 0 0 [[0, 7]])) none
      t₂.db = .ok () aheadTracker.db := by
    rw [(level.streams rfl streams).2.1]
    exact addConfirmed_of_allStored level.messages all
  exact ⟨_, t₂, _, accepted, streams, kept,
    (retry_recovers_iff level rfl accepted streams kept).mpr (.inl all)⟩

/-- A tracker with one batch of one message. -/
def secondTracker : InboxTracker :=
  final (InboxTracker.addSequencerBatchesAndStream [batch 0 0 [[0, 7]]] initialTracker)

/-- Its database once the streamer has the message of the second batch. -/
def stoppedDb : Db := final (addConfirmedMessagesAndEndBatch 1
  (sampleOut secondTracker.db (batch 1 0 [[0, 8]])) none secondTracker.db)

/-- After a stop behind the streamer's commit the second batch is skipped. -/
theorem second_batch_skipped : Level secondTracker 1 ⟨.zero, 1, 0, 0⟩ ∧ ∃ t' t₂,
    InboxTracker.addSequencerBatchesAndStream [batch 1 0 [[0, 8]]] secondTracker = .ok () t' ∧
    Streams secondTracker [batch 1 0 [[0, 8]]] 1 (sampleOut secondTracker.db (batch 1 0 [[0, 8]])) t₂ ∧
    addConfirmedMessagesAndEndBatch 1 (sampleOut secondTracker.db (batch 1 0 [[0, 8]])) none t₂.db =
      .ok () stoppedDb ∧
    ¬ ∃ t'', InboxTracker.addSequencerBatchesAndStream [batch 1 0 [[0, 8]]]
      (InboxTracker.restart stoppedDb) = .ok () t'' ∧ SameInbox t'.db t''.db := by
  have level : Level secondTracker 1 ⟨.zero, 1, 0, 0⟩ :=
    ⟨by decide +kernel, by decide +kernel, by decide +kernel, by decide +kernel⟩
  obtain ⟨_, accepted⟩ := eq_ok_of_isOk (show isOk (InboxTracker.addSequencerBatchesAndStream
    [batch 1 0 [[0, 8]]] secondTracker) = true by decide +kernel)
  obtain ⟨t₂, streams⟩ := @Level.exists_streams _ _ _ _ (batch 1 0 [[0, 8]]) [] _ level rfl
    (streamBatches_sampleOut (by decide +kernel)) (by decide +kernel)
  obtain ⟨_, committed⟩ := eq_ok_of_isOk (show isOk (addConfirmedMessagesAndEndBatch 1
    (sampleOut secondTracker.db (batch 1 0 [[0, 8]])) none secondTracker.db) = true by decide +kernel)
  refine ⟨level, _, t₂, accepted, streams, ?_, ?_⟩
  · rw [(level.streams rfl streams).2.1]
    exact committed
  · rintro ⟨t'', retried, inbox⟩
    have skipped : (InboxTracker.repaired (final (InboxTracker.addSequencerBatchesAndStream
        [batch 1 0 [[0, 8]]] (InboxTracker.restart stoppedDb))).db).count .sequencerBatchCount =
          some 1 := by decide +kernel
    rw [retried, final_ok, inbox.batchCount] at skipped
    exact absurd skipped (by decide +kernel)

end Samples

end NitroRs
