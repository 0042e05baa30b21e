import NitroRs.Inbox.MessageCount
import NitroRs.Streamer.StreamerSpec

/-! Ingesting a window of batches: what the call may have changed when it fails,
and where the messages land when it succeeds. -/
namespace NitroRs
open KeyValue Outcome TransactionStreamer

namespace InboxTracker

/-- The database after the loop of `get_batch_count`. -/
def repaired (db : Db) : Db :=
  match db.count .sequencerBatchCount with
  | none => db
  | some n =>
    if repairCount db n = n then db
    else db.write [.setCount .sequencerBatchCount (repairCount db n)]

theorem repairCount_idem (db : Db) (n : Nat) : repairCount db (repairCount db n) = repairCount db n := by
  induction n with
  | zero => rfl
  | succ n ih =>
    by_cases stored : db.has .sequencerBatchMeta n
    · simp only [repairCount, stored, if_true]
    · simpa only [repairCount, stored, Bool.false_eq_true, if_false] using ih

theorem repairCount_congr {db db' : Db}
    (same : ∀ i, db'.has .sequencerBatchMeta i = db.has .sequencerBatchMeta i) (n : Nat) :
    repairCount db' n = repairCount db n := by
  induction n with
  | zero => rfl
  | succ n ih => simp only [repairCount, same, ih]

/-- Only the batch count may differ after a repair. -/
theorem repaired_spec (db : Db) : (repaired db).get = db.get ∧
    (∀ c, c ≠ .sequencerBatchCount → (repaired db).count c = db.count c) ∧
    (repaired db).count .sequencerBatchCount =
      (db.count .sequencerBatchCount).map (repairCount db) := by
  unfold repaired
  cases count : db.count .sequencerBatchCount with
  | none => exact ⟨rfl, fun _ _ => rfl, count⟩
  | some n =>
    simp only
    split
    · rename_i kept
      exact ⟨rfl, fun _ _ => rfl, by rw [count, Option.map_some, kept]⟩
    · refine ⟨rfl, fun c other => ?_, ?_⟩
      · simp [other]
      · simp

theorem repaired_idem (db : Db) : repaired (repaired db) = repaired db := by
  obtain ⟨tables, counters, count⟩ := repaired_spec db
  have same : ∀ n, repairCount (repaired db) n = repairCount db n :=
    repairCount_congr fun i => by rw [Store.has, tables, Store.has]
  cases stored : db.count .sequencerBatchCount with
  | none =>
    rw [stored] at count
    rw [repaired, count]
    rfl
  | some n =>
    rw [stored] at count
    rw [repaired, count]
    simp only [Option.map_some, same, repairCount_idem, if_true]

theorem getBatchCount_spec (t : InboxTracker) :
    (∃ n, t.db.count .sequencerBatchCount = some n ∧
      getBatchCount t = .ok (repairCount t.db n) { t with db := repaired t.db }) ∨
    (t.db.count .sequencerBatchCount = none ∧ getBatchCount t = .error .notFound t) := by
  unfold getBatchCount
  simp only [bind_read, Db.readCount]
  cases count : t.db.count .sequencerBatchCount with
  | none => exact .inr ⟨rfl, rfl⟩
  | some n =>
    refine .inl ⟨n, rfl, ?_⟩
    rw [bind_lift_ok]
    simp only [repaired, count]
    split
    · rename_i kept
      rw [kept]
      rfl
    · rfl

/-- Computations that keep the database, one after the other. -/
theorem db_bind {α β : Type} {x : EStateM Error InboxTracker α} {f : α → EStateM Error InboxTracker β}
    {t : InboxTracker} {db : Db} (first : (final (x t)).db = db)
    (rest : ∀ a t', t'.db = db → (final (f a t')).db = db) : (final ((x >>= f) t)).db = db := by
  cases ran : x t with
  | ok a t' =>
    rw [ran] at first
    rw [bind_ok ran]
    exact rest a t' first
  | error e t' =>
    rw [ran] at first
    rw [bind_error ran]
    exact first

theorem getBatchMessageCount_db (i : Nat) (t : InboxTracker) :
    (final (getBatchMessageCount i t)).db = t.db := by
  unfold getBatchMessageCount
  rcases getBatchMetadata_cases i t with ⟨m, cache, _, found, _⟩ | ⟨_, missing⟩
  · rw [bind_ok found]
    rfl
  · rw [bind_error missing]
    rfl

/-- The search only reads. -/
theorem searchBatches_db (pos fuel low high : Nat) (t : InboxTracker) :
    (final (searchBatches pos fuel low high t)).db = t.db := by
  induction fuel generalizing low high t with
  | zero => rfl
  | succ fuel ih =>
    unfold searchBatches
    refine db_bind (getBatchMessageCount_db _ t) fun count t' same => ?_
    rw [← same]
    split
    · split
      · rfl
      · exact ih _ _ t'
    · split
      · rfl
      · split
        · rfl
        · exact ih _ _ t'

theorem findInboxBatchContainingMessage_db (pos : Nat) (t : InboxTracker) :
    (final (findInboxBatchContainingMessage pos t)).db = repaired t.db := by
  unfold findInboxBatchContainingMessage
  rcases getBatchCount_spec t with ⟨n, _, counted⟩ | ⟨absent, missing⟩
  · rw [bind_ok counted]
    split
    · rfl
    · refine db_bind (getBatchMessageCount_db _ _) fun count t' same => ?_
      split
      · exact same
      · exact (searchBatches_db _ _ _ _ t').trans same
  · rw [bind_error missing, final_error, repaired, absent]

theorem attempt_db {α : Type} (x : EStateM Error InboxTracker α) (t : InboxTracker) :
    ∃ r t', attempt x t = .ok r t' ∧ t'.db = (final (x t)).db := by
  cases ran : x t with
  | ok a t' => exact ⟨_, _, attempt_ok ran, rfl⟩
  | error e t' => exact ⟨_, _, attempt_error ran, rfl⟩

theorem isAligned_spec (firstSeq c : Nat) (t : InboxTracker) :
    ∃ aligned t', isAligned firstSeq c t = .ok aligned t' ∧ t'.db = repaired t.db := by
  unfold isAligned
  obtain ⟨answer, t₁, counted, db₁⟩ := attempt_db getBatchCount t
  have start : t₁.db = repaired t.db := by
    rw [db₁]
    rcases getBatchCount_spec t with ⟨n, _, counted⟩ | ⟨absent, missing⟩
    · rw [counted, final_ok]
    · rw [missing, final_error, repaired, absent]
  rw [bind_ok counted]
  split
  · exact ⟨true, t₁, rfl, start⟩
  · obtain ⟨found, t₂, searched, db₂⟩ := attempt_db (findInboxBatchContainingMessage c) t₁
    rw [findInboxBatchContainingMessage_db, start, repaired_idem] at db₂
    rw [bind_ok searched]
    split
    · exact ⟨_, t₂, rfl, db₂⟩
    · exact ⟨false, t₂, rfl, db₂⟩

/-- The alignment never fails; it may repair the batch count, and it starts the
stream at the message count. -/
theorem alignWindow_spec (firstSeq : Nat) (m : BatchMetadata) (c : Nat) (t : InboxTracker) :
    ∃ window t', alignWindow firstSeq m c t = .ok window t' ∧
      t'.db = (if c = m.messageCount then t.db else repaired t.db) ∧
      ∀ start read, window = some (start, read) → start = c ∧
        read = if c = m.messageCount then m.delayedMessageCount else realignedDelayed t.db m := by
  unfold alignWindow
  by_cases level : c = m.messageCount
  · rw [if_pos level]
    refine ⟨_, _, rfl, by rw [if_pos level], fun start read window => ?_⟩
    cases window
    exact ⟨level.symm, by rw [if_pos level]⟩
  · simp only [if_neg level]
    obtain ⟨aligned, t₂, decided, db₂⟩ := isAligned_spec firstSeq c t
    rw [bind_ok decided, bind_read]
    refine ⟨_, t₂, rfl, db₂, fun start read window => ?_⟩
    cases aligned with
    | false => exact nomatch window
    | true =>
      cases window
      refine ⟨rfl, ?_⟩
      obtain ⟨_, counters, _⟩ := repaired_spec t.db
      simp only [realignedDelayed, getDelayedCount, Db.readCount, db₂,
        counters .delayedMessageCount (by decide)]

theorem previousMetadata_spec (pos : Nat) (t : InboxTracker) :
    (∃ m cache, t.metadataBefore pos = some m ∧ previousMetadata pos t = .ok m ⟨t.db, cache⟩) ∨
    (t.metadataBefore pos = none ∧ ∃ e, previousMetadata pos t = .error e t) := by
  cases pos with
  | zero => exact .inl ⟨.zero, t.batchMetaCache, rfl, rfl⟩
  | succ pos =>
    unfold previousMetadata
    rw [if_pos (Nat.succ_pos pos), Nat.add_sub_cancel]
    rcases getBatchMetadata_cases pos t with ⟨m, cache, here, found, _⟩ | ⟨missing, failed⟩
    · exact .inl ⟨m, cache, here, found⟩
    · exact .inr ⟨missing, _, failed⟩

theorem onStreamer_ok {α : Type} {x : EStateM Error Db α} {t : InboxTracker} {a : α} {db : Db}
    (ran : x t.db = .ok a db) : onStreamer x t = .ok a { t with db } := zoom_ok ran

theorem onStreamer_error {α : Type} {x : EStateM Error Db α} {t : InboxTracker} {e : Error} {db : Db}
    (ran : x t.db = .error e db) : onStreamer x t = .error e { t with db } := zoom_error ran

end InboxTracker

/-- The call gets to the repair of a batch count that is wrong. -/
def Repairs (t : InboxTracker) (batches : List SequencerInboxBatch) : Prop :=
  ∃ first rest m c, batches = first :: rest ∧ t.metadataBefore first.sequenceNumber = some m ∧
    t.db.count .messageCount = some c ∧ c ≠ m.messageCount ∧ InboxTracker.repaired t.db ≠ t.db

section
variable [Externals]

/-- The call gets to the streamer, in a state `t'`, with messages to append at `c`. -/
structure Streams (t : InboxTracker) (batches : List SequencerInboxBatch) (c : Nat)
    (out : List MessageWithMetadataAndBlockInfo) (t' : InboxTracker) : Prop where
  counted : t.db.count .messageCount = some c
  nonempty : out ≠ []
  path : ∃ first rest m t₁ read, batches = first :: rest ∧
    InboxTracker.previousMetadata first.sequenceNumber t = .ok m t₁ ∧
    InboxTracker.alignWindow first.sequenceNumber m c t₁ = .ok (some (c, read)) t' ∧
    InboxTracker.streamBatches t'.db batches read = .ok out

/-- Up to the streamer a call has changed at most the batch count. -/
theorem Streams.db {t t' : InboxTracker} {batches : List SequencerInboxBatch} {c : Nat}
    {out : List MessageWithMetadataAndBlockInfo} (streams : Streams t batches c out t') :
    t'.db.get = t.db.get ∧ ∀ counter, counter ≠ .sequencerBatchCount →
      t'.db.count counter = t.db.count counter := by
  obtain ⟨first, rest, m, t₁, read, rfl, previous, aligned, _⟩ := streams.path
  obtain ⟨window, t₂, aligned', db, _⟩ := InboxTracker.alignWindow_spec first.sequenceNumber m c t₁
  cases aligned.symm.trans aligned'
  obtain ⟨tables, counters, _⟩ := InboxTracker.repaired_spec t₁.db
  rw [db, ← (previousMetadata_eq_ok previous).2]
  split
  · exact ⟨rfl, fun _ _ => rfl⟩
  · exact ⟨tables, counters⟩

/-- The streamer accepts the window's messages, and not all of them are stored already. -/
def Commits (t : InboxTracker) (batches : List SequencerInboxBatch) : Prop :=
  ∃ c out t' db', Streams t batches c out t' ∧
    addConfirmedMessagesAndEndBatch c out none t'.db = .ok () db' ∧
    (countDuplicateMessages t'.db c out).1 < out.length

/-- The call up to the end of the alignment. -/
theorem ingest_aligned {t t₁ t' : InboxTracker} {first : SequencerInboxBatch}
    {rest : List SequencerInboxBatch} {m : BatchMetadata} {c : Nat} (window : Option (Nat × Nat))
    (previous : InboxTracker.previousMetadata first.sequenceNumber t = .ok m t₁)
    (counted : t₁.db.count .messageCount = some c)
    (aligned : InboxTracker.alignWindow first.sequenceNumber m c t₁ = .ok window t') :
    InboxTracker.addSequencerBatchesAndStream (first :: rest) t =
      window.elim (EStateM.Result.ok () t') fun place =>
        InboxTracker.ingestWindow (first :: rest) place.1 place.2 t' := by
  have found : getMessageCount t₁.db = .ok c := by rw [getMessageCount, Db.readCount, counted]
  rw [InboxTracker.addSequencerBatchesAndStream, bind_ok previous, bind_read, found, bind_lift_ok,
    bind_ok aligned]
  cases window with
  | none =>
    dsimp only
    rw [Option.elim_none, pure_apply]
  | some place => rw [Option.elim_some]

omit [Externals] in
/-- The alignment changes the database exactly where the batch count is repaired. -/
theorem aligned_unchanged_iff {t : InboxTracker} {first : SequencerInboxBatch} {rest : List SequencerInboxBatch}
    {m : BatchMetadata} {c : Nat} (before : t.metadataBefore first.sequenceNumber = some m)
    (counted : t.db.count .messageCount = some c) :
    (if c = m.messageCount then t.db else InboxTracker.repaired t.db) = t.db ↔ ¬ Repairs t (first :: rest) := by
  constructor
  · rintro unchanged ⟨_, _, m', c', ⟨rfl, rfl⟩, before', counted', apart, wrong⟩
    cases before.symm.trans before'
    cases counted.symm.trans counted'
    rw [if_neg apart] at unchanged
    exact wrong unchanged
  · intro unrepaired
    split
    · rfl
    · rename_i apart
      by_contra wrong
      exact unrepaired ⟨first, rest, m, c, rfl, before, counted, apart, wrong⟩

/-- What a call hands to the streamer is the window of its alignment. -/
theorem Streams.window {t t₁ t₂ t' : InboxTracker} {first : SequencerInboxBatch} {rest : List SequencerInboxBatch}
    {m : BatchMetadata} {c c₂ : Nat} {out : List MessageWithMetadataAndBlockInfo} {window : Option (Nat × Nat)}
    (streams : Streams t (first :: rest) c₂ out t₂)
    (previous : InboxTracker.previousMetadata first.sequenceNumber t = .ok m t₁)
    (counted : t.db.count .messageCount = some c)
    (aligned : InboxTracker.alignWindow first.sequenceNumber m c t₁ = .ok window t') :
    ∃ read, window = some (c, read) ∧ c₂ = c ∧ t₂ = t' ∧
      InboxTracker.streamBatches t'.db (first :: rest) read = .ok out := by
  obtain ⟨_, _, m', _, read, ⟨rfl, rfl⟩, previous', aligned', given⟩ := streams.path
  cases counted.symm.trans streams.counted
  cases previous.symm.trans previous'
  cases aligned.symm.trans aligned'
  exact ⟨read, rfl, rfl, rfl, given⟩

omit [Externals] in
theorem get_of_repaired {t t' : InboxTracker} (db : t'.db = t.db ∨ t'.db = InboxTracker.repaired t.db) :
    t'.db.get = t.db.get := by
  rcases db with same | repaired
  · rw [same]
  · rw [repaired, (InboxTracker.repaired_spec t.db).1]

/-- How far a call gets that is aligned. -/
theorem ingest_aligned_cases {t t₁ t' : InboxTracker} {first : SequencerInboxBatch} {rest : List SequencerInboxBatch}
    {m : BatchMetadata} {c : Nat} {window : Option (Nat × Nat)}
    (previous : InboxTracker.previousMetadata first.sequenceNumber t = .ok m t₁)
    (counted : t.db.count .messageCount = some c) (counted₁ : t₁.db.count .messageCount = some c)
    (counted' : t'.db.count .messageCount = some c)
    (aligned : InboxTracker.alignWindow first.sequenceNumber m c t₁ = .ok window t')
    (level : ∀ start read, window = some (start, read) → start = c) :
    ((∀ c₂ out t₂, ¬ Streams t (first :: rest) c₂ out t₂) ∧
        (InboxTracker.addSequencerBatchesAndStream (first :: rest) t = .ok () t' ∨
          ∃ e, InboxTracker.addSequencerBatchesAndStream (first :: rest) t = .error e t')) ∨
      ∃ c₁ out, Streams t (first :: rest) c₁ out t' ∧
        (∀ c₂ out₂ t₂, Streams t (first :: rest) c₂ out₂ t₂ → c₂ = c₁ ∧ out₂ = out ∧ t₂ = t') ∧
        InboxTracker.addSequencerBatchesAndStream (first :: rest) t =
          (InboxTracker.onStreamer (addConfirmedMessagesAndEndBatch c₁ out none) >>= fun _ =>
            InboxTracker.addSequencerBatches (first :: rest)) t' := by
  rw [@ingest_aligned _ _ _ _ _ rest _ _ window previous counted₁ aligned]
  cases window with
  | none =>
    refine .inl ⟨fun c₂ out t₂ streams => ?_, .inl (Option.elim_none ..)⟩
    obtain ⟨_, none, _⟩ := streams.window previous counted aligned
    contradiction
  | some place =>
    obtain ⟨start, read⟩ := place
    obtain rfl := level start read rfl
    rw [Option.elim_some, InboxTracker.ingestWindow, bind_read]
    cases given : InboxTracker.streamBatches t'.db (first :: rest) read with
    | error e =>
      refine .inl ⟨fun c₂ out t₂ streams => ?_, .inr ⟨e, bind_lift_error⟩⟩
      obtain ⟨_, ⟨rfl⟩, _, _, given'⟩ := streams.window previous counted aligned
      cases given.symm.trans given'
    | ok out =>
      rw [bind_lift_ok]
      by_cases empty : out = []
      · subst empty
        refine .inl ⟨fun c₂ out t₂ streams => ?_, .inl (pure_apply ..)⟩
        obtain ⟨_, ⟨rfl⟩, _, _, given'⟩ := streams.window previous counted aligned
        cases given.symm.trans given'
        exact streams.nonempty rfl
      · refine .inr ⟨start, out, ⟨counted, empty, first, rest, m, _, read, rfl, previous, aligned, given⟩,
          fun c₂ out₂ t₂ streams => ?_, ?_⟩
        · obtain ⟨_, ⟨rfl⟩, same, rfl, given'⟩ := streams.window previous counted aligned
          cases given.symm.trans given'
          exact ⟨same, rfl, rfl⟩
        · have some : out.isEmpty = false := by simpa using empty
          simp only [some, Bool.false_eq_true, if_false, getMessageCount, Db.readCount, counted',
            bind_lift_ok, ne_eq, not_true_eq_false]

/-- How far a call gets: it ends with at most the batch count repaired, or hands its
messages to the streamer and then records the batches. -/
theorem ingest_cases (t : InboxTracker) (first : SequencerInboxBatch)
    (rest : List SequencerInboxBatch) :
    ∃ t', (t'.db = t.db ∨ t'.db = InboxTracker.repaired t.db) ∧
      (t'.db = t.db ↔ ¬ Repairs t (first :: rest)) ∧
      (((∀ c out t₂, ¬ Streams t (first :: rest) c out t₂) ∧
          (InboxTracker.addSequencerBatchesAndStream (first :: rest) t = .ok () t' ∨
            ∃ e, InboxTracker.addSequencerBatchesAndStream (first :: rest) t = .error e t')) ∨
        ∃ c out, Streams t (first :: rest) c out t' ∧
          (∀ c₂ out₂ t₂, Streams t (first :: rest) c₂ out₂ t₂ → c₂ = c ∧ out₂ = out ∧ t₂ = t') ∧
          InboxTracker.addSequencerBatchesAndStream (first :: rest) t =
            (InboxTracker.onStreamer (addConfirmedMessagesAndEndBatch c out none) >>= fun _ =>
              InboxTracker.addSequencerBatches (first :: rest)) t') := by
  rcases InboxTracker.previousMetadata_spec first.sequenceNumber t with
    ⟨m, cache, before, previous⟩ | ⟨missing, e, failed⟩
  swap
  · refine ⟨t, .inl rfl, iff_of_true rfl ?_, .inl ⟨?_, .inr ⟨e, bind_error failed⟩⟩⟩
    · rintro ⟨_, _, m, c, ⟨rfl, rfl⟩, found, _⟩
      rw [missing] at found
      contradiction
    · rintro c out t₂ ⟨_, _, _, _, m, t₁, read, ⟨rfl, rfl⟩, found, _⟩
      rw [failed] at found
      contradiction
  cases counted : t.db.count .messageCount with
  | none =>
    refine ⟨⟨t.db, cache⟩, .inl rfl, iff_of_true rfl ?_, .inl ⟨?_, .inr ⟨.notFound, ?_⟩⟩⟩
    · rintro ⟨_, _, _, c, _, _, found, _⟩
      rw [counted] at found
      contradiction
    · rintro c out t₂ ⟨found, _⟩
      rw [counted] at found
      contradiction
    · unfold InboxTracker.addSequencerBatchesAndStream
      simp only [bind_ok previous, bind_read, getMessageCount, Db.readCount, counted,
        bind_lift_error]
  | some c =>
    obtain ⟨window, t', aligned, db, place⟩ :=
      InboxTracker.alignWindow_spec first.sequenceNumber m c ⟨t.db, cache⟩
    have counted' : t'.db.count .messageCount = some c := by
      rw [db]
      split
      · exact counted
      · rw [(InboxTracker.repaired_spec t.db).2.1 _ (by decide), counted]
    refine ⟨t', by rw [db]; split <;> simp, db ▸ aligned_unchanged_iff before counted, ?_⟩
    exact ingest_aligned_cases previous counted counted counted' aligned fun start read here =>
      (place start read here).1

/-- Rejected batches leave the database alone: the checks come before the writes. -/
theorem addSequencerBatches_error {t t' : InboxTracker} {e : Error}
    {batches : List SequencerInboxBatch}
    (rejected : InboxTracker.addSequencerBatches batches t = .error e t') : t'.db = t.db := by
  cases batches with
  | nil => contradiction
  | cons first rest =>
    rw [InboxTracker.addSequencerBatches] at rejected
    rcases InboxTracker.previousMetadata_spec first.sequenceNumber t with
      ⟨m, cache, _, previous⟩ | ⟨_, e', failed⟩
    swap
    · rw [bind_error failed] at rejected
      cases rejected
      rfl
    rw [bind_ok previous, bind_read] at rejected
    cases checked : InboxTracker.checkBatches t.db first.sequenceNumber m.accumulator
      (first :: rest) with
    | error e' =>
      rw [checked, bind_lift_error] at rejected
      cases rejected
      rfl
    | ok _ =>
      rw [checked, bind_lift_ok] at rejected
      cases described : InboxTracker.describeBatches m (first :: rest) with
      | error e' =>
        rw [described, bind_lift_error] at rejected
        cases rejected
        rfl
      | ok metas =>
        obtain ⟨t₂, deleted, _⟩ := InboxTracker.deleteBatchMetadataStartingAt_spec
          (first.sequenceNumber + (first :: rest).length) ⟨t.db, cache⟩
        rw [described, bind_lift_ok, bind_ok deleted, bind_ok (writeBatch_apply _ _),
          update_apply] at rejected
        contradiction

/-- A call that ends before the streamer commits nothing. -/
theorem not_commits_of_not_streams {t : InboxTracker} {batches : List SequencerInboxBatch}
    (silent : ∀ c out t', ¬ Streams t batches c out t') : ¬ Commits t batches := by
  rintro ⟨c, out, t', _, streams, _⟩
  exact silent c out t' streams

omit [Externals] in
/-- A committed append changes the message table. -/
theorem stored_fresh (db : Db) (c : Nat) {out : List MessageWithMetadataAndBlockInfo}
    (fresh : (countDuplicateMessages db c out).1 < out.length) :
    stored db (c + (countDuplicateMessages db c out).1) (out.drop (countDuplicateMessages db c out).1)
        (c + (countDuplicateMessages db c out).1) ≠
      db.get .message (c + (countDuplicateMessages db c out).1) := by
  rcases counts : countDuplicateMessages db c out with ⟨dups, reorg⟩
  rw [counts] at fresh
  have here : out[dups]? = some out[dups] := List.getElem?_eq_getElem fresh
  have differs := (countDuplicateMessages_spec db c out counts).2.2 _ here
  have inside : c + dups < c + dups + (out.drop dups).length := by
    rw [List.length_drop]
    omega
  rw [stored, if_pos ⟨le_rfl, inside⟩, Nat.sub_self, List.getElem?_drop, Nat.add_zero, here]
  exact differs.symm

/-- A call that fails has left the database alone exactly when it neither repaired
the batch count nor had the streamer commit messages. -/
theorem rejected_keeps_database_iff {t t' : InboxTracker} {e : Error}
    {batches : List SequencerInboxBatch}
    (rejected : InboxTracker.addSequencerBatchesAndStream batches t = .error e t') :
    t'.db = t.db ↔ ¬ Repairs t batches ∧ ¬ Commits t batches := by
  cases batches with
  | nil =>
    rw [InboxTracker.addSequencerBatchesAndStream] at rejected
    contradiction
  | cons first rest =>
    obtain ⟨t₂, _, unrepaired, ⟨silent, finished⟩ | ⟨c, out, streams, only, reached⟩⟩ :=
      ingest_cases t first rest
    · have last : t' = t₂ := by
        rw [← final_of_ended finished, rejected, final_error]
      simp only [last, unrepaired, not_commits_of_not_streams silent, not_false_eq_true, and_true]
    · have counted : messageCountOrZero t₂.db = c := by
        rw [messageCountOrZero, streams.db.2 _ (by decide), streams.counted, Option.getD_some]
      have commits : Commits t (first :: rest) ↔ ∃ db',
          addConfirmedMessagesAndEndBatch c out none t₂.db = .ok () db' ∧
          (countDuplicateMessages t₂.db c out).1 < out.length := by
        constructor
        · rintro ⟨_, _, _, db', streams', accepted, fresh⟩
          obtain ⟨rfl, rfl, rfl⟩ := only _ _ _ streams'
          exact ⟨db', accepted, fresh⟩
        · rintro ⟨db', accepted, fresh⟩
          exact ⟨c, out, t₂, db', streams, accepted, fresh⟩
      rw [reached] at rejected
      rcases addConfirmed_spec counted out with ⟨e', refused⟩ | ⟨kept, all⟩ |
        ⟨db', accepted, fresh, _, messages, _, _⟩
      · have last : t'.db = t₂.db := by
          rw [bind_error (InboxTracker.onStreamer_error refused)] at rejected
          cases rejected
          rfl
        have none : ¬ Commits t (first :: rest) := by
          rw [commits]
          rintro ⟨_, accepted, _⟩
          rw [refused] at accepted
          contradiction
        simp only [last, unrepaired, none, not_false_eq_true, and_true]
      · have last : t'.db = t₂.db := by
          rw [bind_ok (InboxTracker.onStreamer_ok kept)] at rejected
          exact addSequencerBatches_error rejected
        have none : ¬ Commits t (first :: rest) := by
          rw [commits]
          rintro ⟨_, _, fresh⟩
          omega
        simp only [last, unrepaired, none, not_false_eq_true, and_true]
      · have last : t'.db = db' := by
          rw [bind_ok (InboxTracker.onStreamer_ok accepted)] at rejected
          exact addSequencerBatches_error rejected
        have committed : Commits t (first :: rest) := commits.mpr ⟨db', accepted, fresh⟩
        refine iff_of_false (fun same => ?_) fun both => both.2 committed
        have written := messages (c + (countDuplicateMessages t₂.db c out).1) (by omega)
        apply stored_fresh t₂.db c fresh
        rw [← written, ← last, same, streams.db.1]

end

section Samples
open Codecs

/-- A first batch whose accumulator chain does not start at zero. -/
def forgedBatch : SequencerInboxBatch :=
  { batch 0 0 [[0, 7]] with beforeInboxAcc := ⟨List.replicate 32 1, rfl⟩ }

theorem forgedBatch_rejected : ∃ e, InboxTracker.addSequencerBatchesAndStream [forgedBatch]
      initialTracker = .error e (final (InboxTracker.addSequencerBatchesAndStream [forgedBatch]
        initialTracker)) ∧
    (final (InboxTracker.addSequencerBatchesAndStream [forgedBatch] initialTracker)).db.count
      .messageCount = some 1 := by
  obtain ⟨e, failed⟩ := eq_error_of_not_isOk (r := InboxTracker.addSequencerBatchesAndStream
    [forgedBatch] initialTracker) (by decide +kernel)
  exact ⟨e, failed, by decide +kernel⟩

/-- The rejected batch had its message committed. -/
theorem forged_batch_commits : Commits initialTracker [forgedBatch] := by
  obtain ⟨e, failed, count⟩ := forgedBatch_rejected
  have kept := rejected_keeps_database_iff failed
  by_contra silent
  have unrepaired : ¬ Repairs initialTracker [forgedBatch] := by
    rintro ⟨_, _, m, c, ⟨rfl, rfl⟩, before, counted, apart, _⟩
    cases before
    cases counted
    exact apart rfl
  rw [kept.mpr ⟨unrepaired, silent⟩] at count
  exact absurd count (by decide +kernel)

/-- The wrong accumulator is found only after the message was stored. -/
theorem forged_batch_changes_database : ∃ e t', InboxTracker.addSequencerBatchesAndStream
    [forgedBatch] initialTracker = .error e t' ∧ t'.db ≠ initialTracker.db := by
  obtain ⟨e, failed, count⟩ := forgedBatch_rejected
  refine ⟨e, _, failed, fun same => ?_⟩
  rw [same] at count
  exact absurd count (by decide +kernel)

end Samples
end NitroRs
