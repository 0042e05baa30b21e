import NitroRs.Inbox.Crash
import NitroRs.Inbox.Emission

/-! A list of batches that is ingested in one window or in two. In the first case one
multiplexer runs over all batches, in the second the stored metadata carries over
what the two runs share. -/
namespace NitroRs
open KeyValue Outcome TransactionStreamer

/-- The metadata of the last batch, zero without batches. -/
def Ledger.last (l : Ledger) : BatchMetadata := (l.batches.getLast?).getD .zero

theorem Ledger.previous_last (l : Ledger) : l.previous l.batches.length = some l.last := by
  rw [Ledger.last]
  cases length : l.batches.length with
  | zero =>
    rw [List.length_eq_zero_iff.mp length]
    rfl
  | succ n =>
    have found : l.batches[n]? = some l.batches[n] := List.getElem?_eq_getElem (by omega)
    rw [Ledger.previous, List.getLast?_eq_getElem?, length, Nat.add_sub_cancel, found, Option.getD_some]

section
variable [Externals] {t t' : InboxTracker} {l : Ledger} {db : Db}

theorem RepresentsWith.of_agree {n : Nat} (represents : RepresentsWith n t l) (frame : Agree .tracker t.db db) :
    RepresentsWith n { t with db } l where
  delayedCount := (frame.count _ rfl).trans represents.delayedCount
  batchCount := (frame.count _ rfl).trans represents.batchCount
  entries i := by rw [frame.get .rlpDelayedMessage rfl]; exact represents.entries i
  noLegacy i := by rw [frame.get .legacyDelayedMessage rfl]; exact represents.noLegacy i
  metas i := by rw [frame.get .sequencerBatchMeta rfl]; exact represents.metas i
  index k i := by rw [frame.get .delayedSequenced rfl]; exact represents.index k i
  cache k m hit := by rw [frame.get .sequencerBatchMeta rfl]; exact represents.cache k m hit

omit [Externals] in
theorem Ledger.le_last {i : Nat} {m : BatchMetadata} (found : l.batches[i]? = some m) :
    m.delayedMessageCount ≤ l.last.delayedMessageCount := by
  have inside := (List.getElem?_eq_some_iff.mp found).1
  have last := l.previous_last
  obtain ⟨n, length⟩ : ∃ n, l.batches.length = n + 1 := ⟨l.batches.length - 1, by omega⟩
  rw [length] at last
  exact Ascending.Sorted.le l.sorted found last (by omega)

/-- Nothing is stored behind the last batch, and no later batch is indexed. -/
theorem RepresentsWith.recorded (represents : Represents t l) (metas : List (Nat × BatchMetadata)) :
    InboxTracker.recorded t.db l.last l.batches.length metas = t.db.write
      (InboxTracker.batchOps l.last metas ++
        [.setCount .sequencerBatchCount (l.batches.length + metas.length)]) := by
  have noMetas : t.db.deleteFrom .sequencerBatchMeta (l.batches.length + metas.length) = [] := by
    rw [Store.deleteFrom, List.map_eq_nil_iff, Store.range_eq_nil]
    intro i past
    rw [represents.metas]
    exact List.getElem?_eq_none (by omega)
  have noIndex : t.db.deleteFrom .delayedSequenced (l.last.delayedMessageCount + 1) = [] := by
    rw [Store.deleteFrom, List.map_eq_nil_iff, Store.range_eq_nil]
    intro k past
    cases found : t.db.get .delayedSequenced k with
    | none => rfl
    | some i =>
      obtain ⟨m, here, rfl, _⟩ := (represents.index k i).mp found
      exact absurd (Ledger.le_last here) (by omega)
  rw [InboxTracker.recorded, noMetas, noIndex, Store.write_nil, List.nil_append]

end

section Described
variable [Externals] {readDelayedInbox : Nat → Except Error L1IncomingMessage} {db : Db}
  {batches more : List SequencerInboxBatch} {read n : Nat} {acc : B256}

/-- The metadata of a list of batches, each made from the one before it. -/
def described : BatchMetadata → List SequencerInboxBatch → List BatchMetadata
  | _, [] => []
  | m, b :: later =>
    match parseSequencerMessage b.serialized with
    | .error _ => []
    | .ok seq => InboxTracker.batchMetadata m b seq ::
        described (InboxTracker.batchMetadata m b seq) later

def lastDescribed (m : BatchMetadata) (batches : List SequencerInboxBatch) : BatchMetadata :=
  ((described m batches).getLast?).getD m

theorem described_cons {b : SequencerInboxBatch} {seq : SequencerMessage} (m : BatchMetadata)
    (later : List SequencerInboxBatch) (parsed : parseSequencerMessage b.serialized = .ok seq) :
    described m (b :: later) = InboxTracker.batchMetadata m b seq ::
        described (InboxTracker.batchMetadata m b seq) later ∧
      lastDescribed m (b :: later) = lastDescribed (InboxTracker.batchMetadata m b seq) later := by
  have same : described m (b :: later) = InboxTracker.batchMetadata m b seq ::
      described (InboxTracker.batchMetadata m b seq) later := by
    rw [described, parsed]
  refine ⟨same, ?_⟩
  rw [lastDescribed, same, lastDescribed, List.getLast?_cons, Option.getD_some]

theorem described_length (served : Served readDelayedInbox batches read) (m : BatchMetadata) :
    (described m batches).length = batches.length := by
  induction batches generalizing m read with
  | nil => rfl
  | cons b later ih =>
    obtain ⟨seq, parsed, _, _, _, _, rest⟩ := served
    rw [(described_cons m later parsed).1, List.length_cons, List.length_cons, ih rest]

theorem described_append (served : Served readDelayedInbox batches read) (m : BatchMetadata) :
    described m (batches ++ more) = described m batches ++ described (lastDescribed m batches) more := by
  induction batches generalizing m read with
  | nil => rfl
  | cons b later ih =>
    obtain ⟨seq, parsed, _, _, _, _, rest⟩ := served
    obtain ⟨same, last⟩ := described_cons m later parsed
    rw [List.cons_append, (described_cons m (later ++ more) parsed).1, same, last, ih rest]
    rfl

/-- What the last metadata has, and what the multiplexer goes on with. -/
theorem lastDescribed_spec (served : Served readDelayedInbox batches read) {m : BatchMetadata}
    (start : m.delayedMessageCount = read) :
    (lastDescribed m batches).messageCount = m.messageCount + countedMessages batches read ∧
      (lastDescribed m batches).delayedMessageCount = readAfter batches read ∧
      (lastDescribed m batches).accumulator =
        batches.foldl (fun _ b => b.afterInboxAcc) m.accumulator := by
  induction batches generalizing m read with
  | nil => exact ⟨rfl, start, rfl⟩
  | cons b later ih =>
    obtain ⟨seq, parsed, _, _, _, _, rest⟩ := served
    obtain ⟨count, delayed, accumulator⟩ := ih rest
      (show (InboxTracker.batchMetadata m b seq).delayedMessageCount = b.afterDelayedCount from rfl)
    rw [(described_cons m later parsed).2]
    refine ⟨?_, delayed, accumulator⟩
    rw [count, countedMessages, parsed, InboxTracker.batchMetadata, start]
    dsimp only
    omega

theorem describeBatches_described (served : Served readDelayedInbox batches read)
    (checked : InboxTracker.checkBatches db n acc batches = .ok ()) (m : BatchMetadata) :
    InboxTracker.describeBatches m batches = .ok (numberFrom n (described m batches)) := by
  induction batches generalizing m n acc read with
  | nil => rfl
  | cons b later ih =>
    obtain ⟨seq, parsed, _, _, _, _, rest⟩ := served
    simp only [InboxTracker.checkBatches] at checked
    split at checked
    · contradiction
    · rename_i here
      split at checked
      · contradiction
      · split at checked
        · contradiction
        · rw [InboxTracker.describeBatches, parsed]
          dsimp only
          rw [ih rest checked, (described_cons m later parsed).1, numberFrom, not_not.mp here]
          rfl

theorem checkBatches_append : InboxTracker.checkBatches db n acc (batches ++ more) = .ok () ↔
    InboxTracker.checkBatches db n acc batches = .ok () ∧ InboxTracker.checkBatches db
      (n + batches.length) (batches.foldl (fun _ b => b.afterInboxAcc) acc) more = .ok () := by
  induction batches generalizing n acc with
  | nil => exact (and_iff_right rfl).symm
  | cons b later ih =>
    simp only [List.cons_append, InboxTracker.checkBatches, List.length_cons, List.foldl_cons]
    split
    · simp
    · split
      · simp
      · split
        · simp
        · rw [ih, Nat.add_assoc, Nat.add_comm 1]

omit [Externals] in
/-- A condition that bounds the first batch and goes on behind it. -/
theorem nondecreasing_of_above {p : List SequencerInboxBatch → Nat → Prop}
    (above : ∀ b later read, p (b :: later) read →
      read ≤ b.afterDelayedCount ∧ p later b.afterDelayedCount)
    {batches : List SequencerInboxBatch} {read : Nat} (holds : p batches read) :
    Nondecreasing read batches := by
  suffices chain : (read :: batches.map (·.afterDelayedCount)).IsChain (· ≤ ·) from
    List.isChain_iff_pairwise.mp chain
  induction batches generalizing read with
  | nil => exact List.isChain_singleton read
  | cons b later ih =>
    obtain ⟨first, rest⟩ := above b later read holds
    exact List.isChain_cons_cons.mpr ⟨first, ih rest⟩

theorem Served.nondecreasing (served : Served readDelayedInbox batches read) :
    Nondecreasing read batches := by
  refine nondecreasing_of_above (fun b later read served => ?_) served
  obtain ⟨_, _, _, _, above, _, rest⟩ := served
  exact ⟨above, rest⟩

end Described
theorem length_numberFrom {α : Type} (n : Nat) (as : List α) : (numberFrom n as).length = as.length := by
  induction as generalizing n with
  | nil => rfl
  | cons a as ih => rw [numberFrom, List.length_cons, List.length_cons, ih]

/-- What a call answers and the database that it leaves. -/
def outcome : EStateM.Result Error InboxTracker Unit → Except Error Unit × Db
  | .ok a t => (.ok a, t.db)
  | .error e t => (.error e, t.db)

/-- Tables in step, no message past the message count, and the message count of the
last batch. -/
structure Combined [Externals] (t : InboxTracker) (l : Ledger) : Prop where
  represents : Represents t l
  tidy : NothingPastCount t.db
  level : t.db.count .messageCount = some l.last.messageCount

/-- The next batches, as the L1 contract has them. -/
structure ValidOnL1 [Externals] (t : InboxTracker) (l : Ledger) (batches : List SequencerInboxBatch) :
    Prop where
  checked : InboxTracker.checkBatches t.db l.batches.length l.last.accumulator batches = .ok ()
  served : Served (InboxTracker.getDelayedMessage t.db) batches l.last.delayedMessageCount

/-- The operations of an ingestion, in their order: the messages, then the batches. -/
def ingestOps (m : BatchMetadata) (n : Nat) (out : List MessageWithMetadataAndBlockInfo)
    (metas : List BatchMetadata) : List DbOp :=
  writeMessages none m.messageCount out ++ (InboxTracker.batchOps m (numberFrom n metas) ++
    [.setCount .sequencerBatchCount (n + metas.length)])

section Operations

theorem focus_foreign {place : Place Counter Table} {ops : List DbOp}
    (foreign : ∀ op ∈ ops, op.owner ≠ placeOwner place) : focus [place] ops = [] := by
  refine focus_eq_nil fun op member inside => foreign op member ?_
  rw [DbOp.owner, List.mem_singleton.mp inside]

theorem batchOps_owner (m : BatchMetadata) (metas : List (Nat × BatchMetadata)) :
    ∀ op ∈ InboxTracker.batchOps m metas, op.owner = .tracker := by
  intro op member
  have place := batchOps_place m metas op member
  simp only [List.mem_cons, List.not_mem_nil, or_false] at place
  rcases place with place | place | place <;> rw [DbOp.owner, place] <;> rfl

theorem batchOps_append (m : BatchMetadata) (n : Nat) (front back : List BatchMetadata) :
    InboxTracker.batchOps m (numberFrom n (front ++ back)) =
      InboxTracker.batchOps m (numberFrom n front) ++ InboxTracker.batchOps ((front.getLast?).getD m)
        (numberFrom (n + front.length) back) := by
  induction front generalizing m n with
  | nil => rfl
  | cons next front ih =>
    have later : n + 1 + front.length = n + (next :: front).length := by
      rw [List.length_cons]
      omega
    rw [List.cons_append, numberFrom, InboxTracker.batchOps, ih, numberFrom, InboxTracker.batchOps,
      List.getLast?_cons, Option.getD_some, later, List.append_assoc]

theorem writeMessages_append (track : Option Nat) (idx : Nat)
    (front back : List MessageWithMetadataAndBlockInfo) : ∃ puts,
      writeMessages track idx front = puts ++ [.setCount .messageCount (idx + front.length)] ∧
      writeMessages track idx (front ++ back) =
        puts ++ writeMessages track (idx + front.length) back := by
  induction front generalizing idx with
  | nil => exact ⟨[], rfl, rfl⟩
  | cons m front ih =>
    obtain ⟨puts, same, same'⟩ := ih (idx + 1)
    have later : idx + 1 + front.length = idx + (m :: front).length := by
      rw [List.length_cons]
      omega
    rw [later] at same same'
    refine ⟨writeMessage idx m track ++ puts, ?_, ?_⟩
    · rw [writeMessages, same, List.append_assoc]
    · rw [List.cons_append, writeMessages, same', List.append_assoc]

theorem count_write_batchOps (db : Db) (m : BatchMetadata) (metas : List (Nat × BatchMetadata)) :
    (db.write (InboxTracker.batchOps m metas)).count = db.count := by
  induction metas generalizing db m with
  | nil => rfl
  | cons entry metas ih =>
    rw [InboxTracker.batchOps, Store.write_append, ih, Store.write_cons]
    split
    · rfl
    · rfl

/-- The counters after an ingestion. -/
theorem count_ingestOps (db : Db) (m : BatchMetadata) (n : Nat)
    (out : List MessageWithMetadataAndBlockInfo) (metas : List BatchMetadata) (c : Counter) :
    (db.write (ingestOps m n out metas)).count c = match c with
      | .messageCount => some (m.messageCount + out.length)
      | .sequencerBatchCount => some (n + metas.length)
      | .delayedMessageCount => db.count .delayedMessageCount := by
  rw [ingestOps, Store.write_append, Store.write_append, Store.write_cons, Store.write_nil,
    Store.count_apply_setCount, count_write_batchOps]
  cases c with
  | messageCount =>
    rw [if_neg (by decide), count_write_writeMessages]
  | sequencerBatchCount => rw [if_pos rfl]
  | delayedMessageCount =>
    rw [if_neg (by decide)]
    exact (Agree.write (writeMessages_owner none m.messageCount out)).count _ rfl

/-- The second ingestion writes over the counts of the first and over nothing else. -/
theorem ingestOps_append (db : Db) (m : BatchMetadata) (n : Nat)
    (out out' : List MessageWithMetadataAndBlockInfo) (metas metas' : List BatchMetadata)
    (level : ((metas.getLast?).getD m).messageCount = m.messageCount + out.length) :
    db.write (ingestOps m n (out ++ out') (metas ++ metas')) =
      (db.write (ingestOps m n out metas)).write
        (ingestOps ((metas.getLast?).getD m) (n + metas.length) out' metas') := by
  obtain ⟨puts, first, whole⟩ := writeMessages_append none m.messageCount out out'
  apply Store.ext
  · intro c
    rw [count_ingestOps, count_ingestOps, count_ingestOps]
    cases c with
    | messageCount => simp only [level, List.length_append, Nat.add_assoc]
    | sequencerBatchCount => simp only [List.length_append, Nat.add_assoc]
    | delayedMessageCount => rfl
  · intro t i
    apply congrFun
    rw [← Store.write_append, Store.get_write_focus, Store.get_write_focus db (_ ++ _)]
    have messages : t.owner = .tracker → focus [.table t] puts = [] ∧
        focus [.table t] (writeMessages none (m.messageCount + out.length) out') = [] := by
      intro owned
      have foreign := writeMessages_owner none m.messageCount (out ++ out')
      rw [whole, ← owned] at foreign
      exact ⟨focus_foreign fun op member => foreign op (List.mem_append_left _ member),
        focus_foreign fun op member => foreign op (List.mem_append_right _ member)⟩
    have batches (m : BatchMetadata) (metas : List (Nat × BatchMetadata)) (owned : t.owner = .streamer) :
        focus [.table t] (InboxTracker.batchOps m metas) = [] :=
      focus_foreign fun op member => by simp [batchOps_owner m metas op member, placeOwner, owned]
    have counts (c : Counter) (k : Nat) : focus [.table t] [(.setCount c k : DbOp)] = [] := by
      rw [focus_setCount, if_neg (by simp)]
    simp only [ingestOps, whole, first, level, batchOps_append, focus_append, counts]
    cases owned : t.owner with
    | tracker => simp [messages owned]
    | streamer => simp [batches _ _ owned]

/-- An ingestion writes messages and batches, and leaves the delayed inbox alone. -/
theorem get_ingestOps (db : Db) (m : BatchMetadata) (n : Nat)
    (out : List MessageWithMetadataAndBlockInfo) (metas : List BatchMetadata) :
    (∀ i, (db.write (ingestOps m n out metas)).get .message i = stored db m.messageCount out i) ∧
    ∀ t, t.owner = .tracker → t ≠ .sequencerBatchMeta → t ≠ .delayedSequenced →
      (db.write (ingestOps m n out metas)).get t = db.get t := by
  have places := batchOps_place m (numberFrom n metas)
  constructor
  · intro i
    rw [ingestOps, Store.write_append, Store.write_append, Store.write_cons, Store.write_nil,
      Store.get_apply_setCount, Store.get_write_of_untouched, get_write_writeMessages]
    intro op member place
    have listed := places op member
    rw [place] at listed
    simp at listed
  · intro t owned notMeta notIndex
    rw [ingestOps, Store.write_append, Store.write_append, Store.write_cons, Store.write_nil,
      Store.get_apply_setCount, Store.get_write_of_untouched]
    · exact (Agree.write (writeMessages_owner none m.messageCount out)).get t owned
    · intro op member place
      have listed := places op member
      rw [place] at listed
      simp [notMeta, notIndex] at listed

end Operations

section Ingestion
variable [Externals] {t : InboxTracker} {l : Ledger} {first : SequencerInboxBatch}
  {rest : List SequencerInboxBatch} {out : List MessageWithMetadataAndBlockInfo} {e : Error}

theorem ValidOnL1.next (valid : ValidOnL1 t l (first :: rest)) :
    first.sequenceNumber = l.batches.length := by
  have checked := valid.checked
  simp only [InboxTracker.checkBatches] at checked
  split at checked
  · contradiction
  · rename_i here
    exact not_not.mp here

theorem Combined.ingest (combined : Combined t l) (valid : ValidOnL1 t l (first :: rest)) :
    ∃ t₁, t₁.db = t.db ∧ Represents t₁ l ∧
      InboxTracker.addSequencerBatchesAndStream (first :: rest) t =
        InboxTracker.ingestWindow (first :: rest) l.last.messageCount l.last.delayedMessageCount t₁ := by
  rcases previousMetadata_represents combined.represents l.batches.length with
    ⟨m, t₁, found, read, db, represents⟩ | ⟨missing, _⟩
  · cases l.previous_last.symm.trans found
    have aligned : InboxTracker.alignWindow first.sequenceNumber l.last l.last.messageCount t₁ =
        .ok (some (l.last.messageCount, l.last.delayedMessageCount)) t₁ := by
      rw [InboxTracker.alignWindow, if_pos rfl, pure_apply]
    refine ⟨t₁, db, represents, ?_⟩
    rw [ingest_aligned _ (valid.next ▸ read) (db ▸ combined.level) aligned, Option.elim_some]
  · rw [l.previous_last] at missing
    contradiction

theorem Combined.ingest_error (combined : Combined t l) (valid : ValidOnL1 t l (first :: rest))
    (failed : InboxTracker.streamBatches t.db (first :: rest) l.last.delayedMessageCount = .error e) :
    outcome (InboxTracker.addSequencerBatchesAndStream (first :: rest) t) = (.error e, t.db) := by
  obtain ⟨t₁, db, _, ran⟩ := combined.ingest valid
  rw [ran, InboxTracker.ingestWindow, bind_read, db, failed, bind_lift_error, outcome, db]

theorem Combined.ingest_nil (combined : Combined t l) (valid : ValidOnL1 t l (first :: rest))
    (given : InboxTracker.streamBatches t.db (first :: rest) l.last.delayedMessageCount = .ok []) :
    ∃ t₁, InboxTracker.addSequencerBatchesAndStream (first :: rest) t = .ok () t₁ ∧ t₁.db = t.db ∧
      Represents t₁ l := by
  obtain ⟨t₁, db, represents, ran⟩ := combined.ingest valid
  refine ⟨t₁, ?_, db, represents⟩
  rw [ran, InboxTracker.ingestWindow, bind_read, db, given, bind_lift_ok, List.isEmpty_nil,
    if_pos rfl, pure_apply]

/-- The messages are at hand and the message count is where they belong. -/
theorem Combined.ingest_out (combined : Combined t l) (valid : ValidOnL1 t l (first :: rest))
    (given : InboxTracker.streamBatches t.db (first :: rest) l.last.delayedMessageCount = .ok out)
    (nonempty : out ≠ []) : ∃ t₁, t₁.db = t.db ∧ Represents t₁ l ∧
      InboxTracker.addSequencerBatchesAndStream (first :: rest) t =
        (InboxTracker.onStreamer (addConfirmedMessagesAndEndBatch l.last.messageCount out none) >>=
          fun _ => InboxTracker.addSequencerBatches (first :: rest)) t₁ := by
  obtain ⟨t₁, db, represents, ran⟩ := combined.ingest valid
  refine ⟨t₁, db, represents, ?_⟩
  have full : out.isEmpty = false := by simpa using nonempty
  have count : getMessageCount t.db = .ok l.last.messageCount := by
    rw [getMessageCount, Db.readCount, combined.level]
  rw [ran, InboxTracker.ingestWindow, bind_read, db, given, bind_lift_ok, full,
    if_neg Bool.false_ne_true, count, bind_lift_ok, if_neg (not_not.mpr rfl)]

theorem Combined.ingest_refused (combined : Combined t l) (valid : ValidOnL1 t l (first :: rest))
    (given : InboxTracker.streamBatches t.db (first :: rest) l.last.delayedMessageCount = .ok out)
    (nonempty : out ≠ [])
    (jumps : checkDelayedReads l.last.messageCount (getPrevPrevDelayedRead t.db l.last.messageCount)
      out = .error e) :
    outcome (InboxTracker.addSequencerBatchesAndStream (first :: rest) t) = (.error e, t.db) := by
  obtain ⟨t₁, db, _, ran⟩ := combined.ingest_out valid given nonempty
  have refused : addConfirmedMessagesAndEndBatch l.last.messageCount out none t₁.db = .error e t.db := by
    rw [db]
    rcases append_cases combined.tidy l.last.messageCount true out none with ⟨apart, _⟩ |
      ⟨_, ⟨e', checked, refused⟩ | ⟨checked, _⟩⟩
    · rw [messageCountOrZero, combined.level, Option.getD_some] at apart
      exact absurd rfl apart
    · cases checked.symm.trans jumps
      exact refused
    · rw [jumps] at checked
      contradiction
  rw [ran, bind_error (InboxTracker.onStreamer_error refused), outcome]

theorem Combined.ingest_accepted (combined : Combined t l) (valid : ValidOnL1 t l (first :: rest))
    (given : InboxTracker.streamBatches t.db (first :: rest) l.last.delayedMessageCount = .ok out)
    (nonempty : out ≠ [])
    (passes : checkDelayedReads l.last.messageCount
      (getPrevPrevDelayedRead t.db l.last.messageCount) out = .ok ()) :
    ∃ t' l', InboxTracker.addSequencerBatchesAndStream (first :: rest) t = .ok () t' ∧
      t'.db = t.db.write (ingestOps l.last l.batches.length out (described l.last (first :: rest))) ∧
      Represents t' l' ∧ l'.batches = l.batches ++ described l.last (first :: rest) := by
  obtain ⟨t₁, db, represents, ran⟩ := combined.ingest_out valid given nonempty
  have counted : messageCountOrZero t.db = l.last.messageCount := by
    rw [messageCountOrZero, combined.level, Option.getD_some]
  have appended : addConfirmedMessagesAndEndBatch l.last.messageCount out none t₁.db =
      .ok () (t.db.write (writeMessages none l.last.messageCount out)) := by
    rw [db]
    rcases append_cases combined.tidy l.last.messageCount true out none with ⟨apart, _⟩ |
      ⟨_, ⟨e, checked, _⟩ | ⟨_, done⟩⟩
    · exact absurd counted.symm apart
    · rw [passes] at checked
      contradiction
    · rwa [if_neg nonempty] at done
  have frame : Agree .tracker t₁.db (t.db.write (writeMessages none l.last.messageCount out)) := by
    rw [db]
    exact .write (writeMessages_owner none l.last.messageCount out)
  have represents' := represents.of_agree frame
  have accs : InboxTracker.getDelayedAcc (t.db.write (writeMessages none l.last.messageCount out)) =
      InboxTracker.getDelayedAcc t.db := by
    funext i
    rw [represents'.getDelayedAcc, combined.represents.getDelayedAcc]
  have checked := (InboxTracker.checkBatches_congr accs _ _ _).trans valid.checked
  have metas := describeBatches_described valid.served checked l.last
  have steady (m : BatchMetadata) (found : l.previous first.sequenceNumber = some m) :
      Nondecreasing m.delayedMessageCount (first :: rest) := by
    rw [valid.next, l.previous_last] at found
    cases found
    exact valid.served.nondecreasing
  rcases previousMetadata_represents represents' first.sequenceNumber with
    ⟨m, t₀, found, previous, _⟩ | ⟨missing, _⟩
  swap
  · rw [valid.next, l.previous_last] at missing
    contradiction
  rw [valid.next, l.previous_last] at found
  cases found
  obtain ⟨cache, recorded⟩ :=
    InboxTracker.addSequencerBatches_recorded previous (valid.next ▸ checked) metas
  rw [ran, bind_ok (InboxTracker.onStreamer_ok appended)]
  rcases addSequencerBatches_represents represents' steady with
    ⟨e, t', failed, _⟩ | ⟨m, metas', t', sorted, bounded, found, described', accepted, after, _⟩
  · cases recorded.symm.trans failed
  · rw [valid.next, l.previous_last] at found
    cases found
    cases recorded.symm.trans accepted
    rw [metas, valid.next] at described'
    have same := numberFrom_injective (Except.ok.inj described')
    refine ⟨_, l.addBatches first.sequenceNumber metas' sorted bounded, accepted, ?_, after, ?_⟩
    · rw [ingestOps, Store.write_append, ← length_numberFrom l.batches.length (described _ _)]
      rw [valid.next]
      exact represents'.recorded _
    · rw [same]
      exact congrArg (· ++ metas') (List.take_of_length_le valid.next.ge)

end Ingestion

/-! A message count that is not the one of the last batch. -/
section Skipped
variable [Externals] {t t' : InboxTracker} {l : Ledger} {first : SequencerInboxBatch}
  {rest : List SequencerInboxBatch} {c : Nat}

theorem RepresentsWith.repaired {n : Nat} (represents : RepresentsWith n t l) : InboxTracker.repaired t.db = t.db := by
  have counted := represents.getBatchCount
  rcases InboxTracker.getBatchCount_spec t with ⟨_, _, counted'⟩ | ⟨_, missing⟩
  · exact congrArg InboxTracker.db (EStateM.Result.ok.inj (counted'.symm.trans counted)).2
  · cases missing.symm.trans counted

theorem RepresentsWith.getBatchMessageCount (represents : Represents t l) {i : Nat} {m : BatchMetadata}
    (found : l.batches[i]? = some m) : ∃ t', InboxTracker.getBatchMessageCount i t =
      .ok m.messageCount t' ∧ Represents t' l := by
  rcases represents.getBatchMetadata i with ⟨m', t', found', read, _, represents'⟩ | ⟨missing, _⟩
  · cases found.symm.trans found'
    exact ⟨t', by rw [InboxTracker.getBatchMessageCount, bind_ok read, pure_apply], represents'⟩
  · rw [found] at missing
    contradiction

/-- The search stays at or below a batch that ends behind the position. -/
theorem searchBatches_le (represents : Represents t l) {pos fuel low high i : Nat} {m : BatchMetadata}
    {found : Bool} (top : l.batches[high]? = some m) (below : pos < m.messageCount) (order : low ≤ high)
    (done : InboxTracker.searchBatches pos fuel low high t = .ok (i, found) t') : i ≤ high := by
  induction fuel generalizing low high m t with
  | zero => contradiction
  | succ fuel ih =>
    have inside := (List.getElem?_eq_some_iff.mp top).1
    have here : l.batches[(low + high) / 2]? = some (l.batches[(low + high) / 2]) :=
      List.getElem?_eq_getElem (by omega)
    obtain ⟨t₁, count, represents'⟩ := represents.getBatchMessageCount here
    rw [InboxTracker.searchBatches, bind_ok count] at done
    generalize mid : l.batches[(low + high) / 2] = middle at here done
    split at done
    · rename_i short
      have apart : (low + high) / 2 ≠ high := by
        intro same
        rw [same, top] at here
        cases here
        omega
      split at done
      · cases done
        exact le_rfl
      · exact ih represents' top below (by omega) done
    · split at done
      · have apart : (low + high) / 2 ≠ high := by
          intro same
          rw [same, top] at here
          cases here
          omega
        cases done
        omega
      · split at done
        · cases done
          omega
        · have lower := ih represents' here (by omega) (by omega) done
          omega

/-- No message count is taken to fall in the batch behind the last one. -/
theorem RepresentsWith.isAligned_next (represents : Represents t l) (some : l.batches ≠ []) :
    ∃ t', InboxTracker.isAligned l.batches.length c t = .ok false t' ∧ t'.db = t.db := by
  obtain ⟨aligned, t', decided, db⟩ := InboxTracker.isAligned_spec l.batches.length c t
  rw [represents.repaired] at db
  have positive := List.length_pos_iff.mpr some
  refine ⟨t', ?_, db⟩
  cases aligned with
  | false => exact decided
  | true =>
    exfalso
    have warm : t.batchCountOrZero = l.batches.length := by
      have counted := InboxTracker.repaired_spec t.db
      rw [represents.repaired, represents.batchCount, Option.map_some] at counted
      rw [InboxTracker.batchCountOrZero, represents.batchCount, Option.elim_some]
      exact (Option.some.inj counted.2.2).symm
    rcases (isAligned_iff decided).mp rfl with ⟨cold, _⟩ | ⟨t₂, found⟩
    · omega
    · rw [represents.getBatchCount, final_ok, InboxTracker.findInboxBatchContainingMessage,
        bind_ok represents.getBatchCount, if_neg positive.ne'] at found
      have here : l.batches[l.batches.length - 1]? = .some (l.batches[l.batches.length - 1]) :=
        List.getElem?_eq_getElem (by omega)
      obtain ⟨t₁, count, represents'⟩ := represents.getBatchMessageCount here
      rw [bind_ok count] at found
      split at found
      · exact Bool.noConfusion (Prod.mk.inj (EStateM.Result.ok.inj found).1).2
      · have bound := searchBatches_le represents' here (by omega) (Nat.zero_le _) found
        omega

theorem ingest_skipped (represents : Represents t l) (some : l.batches ≠ [])
    (counted : t.db.count .messageCount = .some c) (apart : c ≠ l.last.messageCount)
    (next : first.sequenceNumber = l.batches.length) :
    outcome (InboxTracker.addSequencerBatchesAndStream (first :: rest) t) = (.ok (), t.db) := by
  rcases previousMetadata_represents represents l.batches.length with
    ⟨m, t₁, found, read, db, represents₁⟩ | ⟨missing, _⟩
  · cases l.previous_last.symm.trans found
    obtain ⟨t₂, aligned, db₂⟩ := @RepresentsWith.isAligned_next _ t₁ l c represents₁ some
    have window : InboxTracker.alignWindow first.sequenceNumber l.last c t₁ = .ok none t₂ := by
      rw [InboxTracker.alignWindow, if_neg apart, next, bind_ok aligned, bind_read]
      rfl
    rw [ingest_aligned none (next ▸ read) (db ▸ counted) window, Option.elim_none, outcome, db₂, db]
  · rw [l.previous_last] at missing
    contradiction

end Skipped

section Cut
variable [Externals] {t t' : InboxTracker} {l l' : Ledger} {front back : List SequencerInboxBatch}
  {first : SequencerInboxBatch} {rest : List SequencerInboxBatch}
  {out : List MessageWithMetadataAndBlockInfo}

theorem ValidOnL1.head (valid : ValidOnL1 t l (front ++ back)) : ValidOnL1 t l front :=
  ⟨(checkBatches_append.mp valid.checked).1, valid.served.append.1⟩

/-- What the first of two calls leaves for the second. -/
structure HandedOver (t t' : InboxTracker) (l l' : Ledger) (front back : List SequencerInboxBatch)
    (out : List MessageWithMetadataAndBlockInfo) : Prop where
  db : t'.db = t.db.write (ingestOps l.last l.batches.length out (described l.last front))
  represents : Represents t' l'
  tidy : NothingPastCount t'.db
  last : l'.last = lastDescribed l.last front
  length : l'.batches.length = l.batches.length + front.length
  inbox : InboxTracker.getDelayedMessage t'.db = InboxTracker.getDelayedMessage t.db
  valid : ValidOnL1 t' l' back

theorem Combined.handedOver (combined : Combined t l) (valid : ValidOnL1 t l (first :: rest ++ back))
    (given : InboxTracker.streamBatches t.db (first :: rest) l.last.delayedMessageCount = .ok out)
    (nonempty : out ≠ [])
    (passes : checkDelayedReads l.last.messageCount
      (getPrevPrevDelayedRead t.db l.last.messageCount) out = .ok ()) :
    ∃ t' l', InboxTracker.addSequencerBatchesAndStream (first :: rest) t = .ok () t' ∧
      HandedOver t t' l l' (first :: rest) back out := by
  obtain ⟨t', l', accepted, db, represents, batches⟩ :=
    combined.ingest_accepted valid.head given nonempty passes
  obtain ⟨served, served'⟩ := valid.served.append
  have length := described_length served l.last
  have last : l'.last = lastDescribed l.last (first :: rest) := by
    have some : described l.last (first :: rest) ≠ [] := by
      intro empty
      rw [empty] at length
      contradiction
    rw [Ledger.last, batches, lastDescribed, List.getLast?_append, List.getLast?_eq_some_getLast some]
    rfl
  obtain ⟨messages, tables⟩ := get_ingestOps t.db l.last l.batches.length out
    (described l.last (first :: rest))
  rw [← db] at messages tables
  have inbox : InboxTracker.getDelayedMessage t'.db = InboxTracker.getDelayedMessage t.db := by
    funext i
    simp only [InboxTracker.getDelayedMessage,
      InboxTracker.getDelayedMessageAccumulatorAndParentChainBlockNumber,
      InboxTracker.legacyGetDelayedMessageAndAccumulator,
      tables .rlpDelayedMessage rfl (by decide) (by decide),
      tables .parentChainBlockNumber rfl (by decide) (by decide),
      tables .legacyDelayedMessage rfl (by decide) (by decide)]
  have accs : InboxTracker.getDelayedAcc t'.db = InboxTracker.getDelayedAcc t.db := by
    funext i
    simp only [InboxTracker.getDelayedAcc, tables .rlpDelayedMessage rfl (by decide) (by decide),
      tables .legacyDelayedMessage rfl (by decide) (by decide)]
  obtain ⟨_, delayed, accumulator⟩ := lastDescribed_spec served rfl
  have total : l'.batches.length = l.batches.length + (first :: rest).length := by
    rw [batches, List.length_append, length]
  refine ⟨t', l', accepted, db, represents, ?_, last, total, inbox, ?_, ?_⟩
  · have count := count_ingestOps t.db l.last l.batches.length out (described l.last (first :: rest))
      .messageCount
    rw [← db] at count
    intro i past
    rw [messageCountOrZero, count, Option.getD_some] at past
    rw [messages, stored, if_neg (by omega)]
    apply combined.tidy
    rw [messageCountOrZero, combined.level, Option.getD_some]
    omega
  · rw [total, last, accumulator, InboxTracker.checkBatches_congr accs]
    exact (checkBatches_append.mp valid.checked).2
  · rw [inbox, last, delayed]
    exact served'

omit [Externals] in
theorem reads_append {last r : Nat} {out' : List MessageWithMetadataAndBlockInfo}
    (front : (readsFrom last out).IsChain fun before read => read ≤ before + 1)
    (final : (readsFrom last out).getLast? = some r)
    (back : (readsFrom r out').IsChain fun before read => read ≤ before + 1) :
    (readsFrom last (out ++ out')).IsChain fun before read => read ≤ before + 1 := by
  have whole : readsFrom last (out ++ out') =
      readsFrom last out ++ out'.map (·.messageWithMeta.delayedMessagesRead) := by
    rw [readsFrom, readsFrom, List.map_append, List.cons_append]
  rw [readsFrom, List.isChain_cons] at back
  rw [whole, List.isChain_append]
  refine ⟨front, back.2, fun x here y there => ?_⟩
  cases final.symm.trans here
  exact back.1 y there

/-- The message stored in front of the count is the last one of the window. -/
theorem HandedOver.previousRead (handed : HandedOver t t' l l' front back out) {r : Nat} {last : Nat}
    (nonempty : out ≠ []) (final : (readsFrom last out).getLast? = some r) :
    getPrevPrevDelayedRead t'.db (l.last.messageCount + out.length) = r := by
  have positive := List.length_pos_iff.mpr nonempty
  have message := (get_ingestOps t.db l.last l.batches.length out (described l.last front)).1
    (l.last.messageCount + out.length - 1)
  rw [← handed.db, stored, if_pos (by omega)] at message
  rw [getPrevPrevDelayedRead, if_neg (by omega), message]
  have here : out[l.last.messageCount + out.length - 1 - l.last.messageCount]? = out.getLast? := by
    rw [List.getLast?_eq_getElem?]
    congr 1
    omega
  rw [readsFrom, List.getLast?_cons, List.getLast?_map, Option.some.injEq] at final
  rw [here, List.getLast?_eq_some_getLast nonempty]
  rw [List.getLast?_eq_some_getLast nonempty] at final
  exact final

/-- The streamer does not take the first message of the batch: it reads more than one
delayed message more than the last stored message. -/
def Refused (t : InboxTracker) (l : Ledger) (b : SequencerInboxBatch) : Prop :=
  ∃ seq, parseSequencerMessage b.serialized = .ok seq ∧
    getPrevPrevDelayedRead t.db l.last.messageCount + 1 <
      Feed.firstRead seq l.last.delayedMessageCount

/-- The streamer looks at the first message alone, the others do not jump. -/
theorem check_run {last : Feed} (served : Served (InboxTracker.getDelayedMessage t.db) (first :: rest)
      l.last.delayedMessageCount)
    (run : Feed.Emits (InboxTracker.getDelayedMessage t.db)
      (.between (first :: rest) l.last.delayedMessageCount) out last) (nonempty : out ≠ []) :
    (Refused t l first ∧ ∃ e, e ≠ .brotli ∧ ∀ more, checkDelayedReads l.last.messageCount
      (getPrevPrevDelayedRead t.db l.last.messageCount) (out ++ more) = .error e) ∨
    (¬ Refused t l first ∧
      (readsFrom (getPrevPrevDelayedRead t.db l.last.messageCount) out).IsChain
        (fun before read => read ≤ before + 1) ∧
      (readsFrom (getPrevPrevDelayedRead t.db l.last.messageCount) out).getLast? =
        some last.reached) := by
  obtain ⟨chain, final, _⟩ := run.reads served
  obtain ⟨seq, parsed, _, header, above, _⟩ := id served
  cases run with
  | done => exact absurd rfl nonempty
  | @next _ _ _ m out popped later =>
    have reads := Feed.pop_firstRead parsed (header ▸ above) popped
    have refused : Refused t l first ↔ getPrevPrevDelayedRead t.db l.last.messageCount + 1 <
        m.messageWithMeta.delayedMessagesRead := by
      simp only [Refused, parsed, Except.ok.injEq, exists_eq_left', reads]
    rw [refused]
    by_cases jump : getPrevPrevDelayedRead t.db l.last.messageCount + 1 <
      m.messageWithMeta.delayedMessagesRead
    · refine .inl ⟨jump, .delayedReadJump (getPrevPrevDelayedRead t.db l.last.messageCount)
        m.messageWithMeta.delayedMessagesRead l.last.messageCount, nofun, fun more => ?_⟩
      rw [List.cons_append, checkDelayedReads, if_pos (by omega)]
    · refine .inr ⟨jump, ?_, ?_⟩
      · rw [readsFrom, List.map_cons, List.isChain_cons_cons] at chain ⊢
        exact ⟨by omega, chain.2⟩
      · rw [readsFrom, List.map_cons, List.getLast?_cons_cons] at final ⊢
        exact final

namespace HandedOver

theorem counts (handed : HandedOver t t' l l' front back out)
    (served : Served (InboxTracker.getDelayedMessage t.db) front l.last.delayedMessageCount) :
    t'.db.count .messageCount = some (l.last.messageCount + out.length) ∧
      t'.db.count .sequencerBatchCount = some (l.batches.length + front.length) := by
  rw [handed.db, count_ingestOps, count_ingestOps, described_length served]
  exact ⟨rfl, rfl⟩

/-- The second call finds the message count of the last batch if the first one gave as
many messages as the tracker counts. -/
theorem combined (handed : HandedOver t t' l l' front back out)
    (served : Served (InboxTracker.getDelayedMessage t.db) front l.last.delayedMessageCount)
    (level : out.length = countedMessages front l.last.delayedMessageCount) : Combined t' l' := by
  refine ⟨handed.represents, handed.tidy, ?_⟩
  rw [(handed.counts served).1, handed.last, (lastDescribed_spec served rfl).1, level]

/-- Else it skips its batches. -/
theorem skips (handed : HandedOver t t' l l' (first :: rest) back out) (some : back ≠ [])
    (served : Served (InboxTracker.getDelayedMessage t.db) (first :: rest) l.last.delayedMessageCount)
    (apart : out.length ≠ countedMessages (first :: rest) l.last.delayedMessageCount) :
    outcome (InboxTracker.addSequencerBatchesAndStream back t') = (.ok (), t'.db) := by
  cases back with
  | nil => exact absurd rfl some
  | cons next later =>
    refine ingest_skipped handed.represents ?_ (handed.counts served).1 ?_ handed.valid.next
    · rw [← List.length_pos_iff, handed.length, List.length_cons]
      omega
    · rw [handed.last, (lastDescribed_spec served rfl).1]
      omega

end HandedOver

/-- When a list of batches may be cut in two. -/
def MayCut (t : InboxTracker) (l : Ledger) : List SequencerInboxBatch → List SequencerInboxBatch → Prop
  | [], _ | _, [] => True
  | first :: rest, next :: later =>
    let inbox := InboxTracker.getDelayedMessage t.db
    let start := l.last.delayedMessageCount
    ¬ Streamable inbox (first :: rest) start ∨
    (Refused t l first ∧ ¬ OpensUnknown first ∧ Streamable inbox (first :: rest ++ next :: later) start) ∨
    (¬ Refused t l first ∧ Each (Closes inbox) (first :: rest) start ∧
      Each Exact (first :: rest) start ∧
      Streamable inbox (next :: later) (readAfter (first :: rest) start) ∧ ¬ OpensUnknown next)

/-- Two calls, the second one on what the first leaves. -/
def ingestParts (front back : List SequencerInboxBatch) : EStateM Error InboxTracker Unit := do
  InboxTracker.addSequencerBatchesAndStream front
  InboxTracker.addSequencerBatchesAndStream back

theorem parts_of_error {e : Error}
    (failed : outcome (InboxTracker.addSequencerBatchesAndStream front t) = (.error e, t.db)) :
    outcome (ingestParts front back t) = (.error e, t.db) := by
  cases ran : InboxTracker.addSequencerBatchesAndStream front t with
  | ok _ t₁ =>
    rw [ran] at failed
    cases failed
  | error e' t₁ =>
    rw [ran] at failed
    rw [ingestParts, bind_error ran]
    exact failed

theorem parts_of_ok (accepted : InboxTracker.addSequencerBatchesAndStream front t = .ok () t') :
    outcome (ingestParts front back t) =
      outcome (InboxTracker.addSequencerBatchesAndStream back t') := by
  rw [ingestParts, bind_ok accepted]

/-- A batch behind a batch that is not stored. -/
theorem ingest_missing (represents : Represents t l) (beyond : l.batches.length < first.sequenceNumber) :
    ∃ e, outcome (InboxTracker.addSequencerBatchesAndStream (first :: rest) t) = (.error e, t.db) := by
  rcases previousMetadata_represents represents first.sequenceNumber with ⟨m, _, found, _⟩ |
    ⟨_, e, failed⟩
  · exact absurd (Ledger.previous_eq_some found).1 (by omega)
  · exact ⟨e, by rw [InboxTracker.addSequencerBatchesAndStream, bind_error failed, outcome]⟩

/-- The ways in which a call on a combined state ends. -/
theorem Combined.ingest_outcomes (combined : Combined t l) (valid : ValidOnL1 t l (first :: rest)) :
    (∃ answer, outcome (InboxTracker.addSequencerBatchesAndStream (first :: rest) t) = (answer, t.db)) ∨
    ∃ out, out ≠ [] ∧ outcome (InboxTracker.addSequencerBatchesAndStream (first :: rest) t) =
      (.ok (), t.db.write (ingestOps l.last l.batches.length out (described l.last (first :: rest)))) := by
  cases given : InboxTracker.streamBatches t.db (first :: rest) l.last.delayedMessageCount with
  | error e => exact .inl ⟨_, combined.ingest_error valid given⟩
  | ok out =>
    by_cases nonempty : out = []
    · subst nonempty
      obtain ⟨t₁, ran, db, _⟩ := combined.ingest_nil valid given
      exact .inl ⟨.ok (), by rw [ran, outcome, db]⟩
    · cases checked : checkDelayedReads l.last.messageCount
        (getPrevPrevDelayedRead t.db l.last.messageCount) out with
      | error e => exact .inl ⟨_, combined.ingest_refused valid given nonempty checked⟩
      | ok _ =>
        obtain ⟨t', _, ran, db, _⟩ := combined.ingest_accepted valid given nonempty checked
        exact .inr ⟨out, nonempty, by rw [ran, outcome, db]⟩

variable {next : SequencerInboxBatch} {later : List SequencerInboxBatch}

/-- The two ways to ingest a list of batches answer the same and leave the same. -/
def SameOutcome (t : InboxTracker) (front back : List SequencerInboxBatch) : Prop :=
  outcome (InboxTracker.addSequencerBatchesAndStream (front ++ back) t) =
    outcome (ingestParts front back t)

theorem ValidOnL1.following (valid : ValidOnL1 t l (front ++ next :: later)) :
    next.sequenceNumber = l.batches.length + front.length := by
  have checked := (checkBatches_append.mp valid.checked).2
  simp only [InboxTracker.checkBatches] at checked
  split at checked
  · contradiction
  · rename_i here
    exact not_not.mp here

/-- A second call that leaves the database alone does not record what one window records. -/
theorem HandedOver.not_recorded (handed : HandedOver t t' l l' (first :: rest) (next :: later) out)
    (served : Served (InboxTracker.getDelayedMessage t.db) (first :: rest) l.last.delayedMessageCount)
    (valid : ValidOnL1 t l (first :: (rest ++ next :: later)))
    {answer answer' : Except Error Unit} {ms : List MessageWithMetadataAndBlockInfo}
    (stopped : outcome (InboxTracker.addSequencerBatchesAndStream (next :: later) t') = (answer, t'.db)) :
    (answer', t.db.write (ingestOps l.last l.batches.length ms
        (described l.last (first :: (rest ++ next :: later))))) ≠
      outcome (InboxTracker.addSequencerBatchesAndStream (next :: later) t') := by
  intro same
  obtain ⟨_, batches⟩ := handed.counts served
  have all := described_length valid.served l.last
  have recorded := congrArg (fun r => r.2.count .sequencerBatchCount) same
  simp only [List.length_cons, List.length_append] at all batches
  simp only [count_ingestOps, stopped, batches] at recorded
  have := Option.some.inj recorded
  omega

/-- The stream ends within the first part, so no message comes from the second. -/
theorem cut_ended (combined : Combined t l) (valid : ValidOnL1 t l (first :: rest ++ next :: later))
    {last : Feed} (sound : Streamable (InboxTracker.getDelayedMessage t.db) (first :: rest)
      l.last.delayedMessageCount)
    (hidden : ¬ Each (Closes (InboxTracker.getDelayedMessage t.db)) (first :: rest)
      l.last.delayedMessageCount)
    (run : Feed.Emits (InboxTracker.getDelayedMessage t.db)
      (.between (first :: rest) l.last.delayedMessageCount) out last)
    (alone : InboxTracker.streamBatches t.db (first :: rest) l.last.delayedMessageCount = .ok out)
    (whole : InboxTracker.streamBatches t.db (first :: rest ++ next :: later)
      l.last.delayedMessageCount = .ok out) :
    SameOutcome t (first :: rest) (next :: later) ↔ MayCut t l (first :: rest) (next :: later) := by
  have served := valid.served.append.1
  have opens := streamBatches_eq_nil_iff alone
  have together : ValidOnL1 t l (first :: (rest ++ next :: later)) := valid
  rw [List.cons_append] at whole
  rw [SameOutcome, List.cons_append]
  by_cases nonempty : out = []
  · -- nothing is ingested, and the second call misses its predecessor
    have unknown := opens.mp nonempty
    subst nonempty
    obtain ⟨t₁, ran, db, represents⟩ := combined.ingest_nil valid.head alone
    obtain ⟨t₂, ran', db', _⟩ := combined.ingest_nil together whole
    obtain ⟨e, missing⟩ := @ingest_missing _ t₁ l next later represents (by
      rw [valid.following, List.length_cons]
      omega)
    refine iff_of_false ?_ ?_
    · rw [ran', parts_of_ok ran, missing, outcome]
      exact fun same => nomatch (Prod.mk.inj same).1
    · rintro (broken | ⟨_, known, _⟩ | ⟨_, closes, _⟩)
      · exact broken sound
      · exact known unknown
      · exact hidden closes
  have known : ¬ OpensUnknown first := fun unknown => nonempty (opens.mpr unknown)
  rcases check_run served run nonempty with ⟨refused, e, _, jumps⟩ | ⟨accepted, chain, _⟩
  · have jump := jumps []
    rw [List.append_nil] at jump
    refine iff_of_true ?_ (.inr (.inl ⟨refused, known, (streamable_append served).mpr
      ⟨sound, fun closes => absurd closes hidden⟩⟩))
    rw [parts_of_error (combined.ingest_refused valid.head alone nonempty jump)]
    exact combined.ingest_refused together whole nonempty jump
  · have passes : checkDelayedReads l.last.messageCount
        (getPrevPrevDelayedRead t.db l.last.messageCount) out = .ok () :=
      checkDelayedReads_eq_ok.mpr chain
    obtain ⟨t', l', ran, handed⟩ := combined.handedOver valid alone nonempty passes
    obtain ⟨tw, _, ran', db, _⟩ := combined.ingest_accepted together whole nonempty passes
    obtain ⟨messages, _⟩ := handed.counts served
    rw [ran', parts_of_ok ran, outcome, db]
    refine iff_of_false (fun same => ?_) ?_
    · by_cases level : out.length = countedMessages (first :: rest) l.last.delayedMessageCount
      · rcases (handed.combined served level).ingest_outcomes handed.valid with ⟨_, stopped⟩ |
          ⟨out', more, done⟩
        · exact handed.not_recorded served together stopped same
        · -- the second call stores messages that one window does not have
          have stored := congrArg (fun r => r.2.count .messageCount) same
          rw [done] at stored
          simp only [count_ingestOps] at stored
          have longer := List.length_pos_iff.mpr more
          have total := (handed.combined served level).level.symm.trans messages
          have := Option.some.inj total
          have := Option.some.inj stored
          omega
      · exact handed.not_recorded served together (handed.skips (by simp) served level) same
    · rintro (broken | ⟨refused, _⟩ | ⟨_, closes, _⟩)
      · exact broken sound
      · exact accepted refused
      · exact hidden closes

/-- The messages of the first part are gone again in one window and kept in two. -/
theorem cut_broken (combined : Combined t l) (valid : ValidOnL1 t l (first :: (rest ++ next :: later)))
    (handed : HandedOver t t' l l' (first :: rest) (next :: later) out)
    (served : Served (InboxTracker.getDelayedMessage t.db) (first :: rest) l.last.delayedMessageCount) {e e' : Error}
    (whole : InboxTracker.streamBatches t.db (first :: (rest ++ next :: later)) l.last.delayedMessageCount = .error e)
    (given : InboxTracker.streamBatches t'.db (next :: later) l'.last.delayedMessageCount = .error e') :
    outcome (InboxTracker.addSequencerBatchesAndStream (first :: (rest ++ next :: later)) t) ≠
      outcome (InboxTracker.addSequencerBatchesAndStream (next :: later) t') := by
  rw [combined.ingest_error valid whole]
  intro same
  by_cases level : out.length = countedMessages (first :: rest) l.last.delayedMessageCount
  · rw [(handed.combined served level).ingest_error handed.valid given] at same
    have unchanged := congrArg (fun r => r.2.count .sequencerBatchCount) same
    simp only [(handed.counts served).2, combined.represents.batchCount, List.length_cons] at unchanged
    have := Option.some.inj unchanged
    omega
  · rw [handed.skips (by simp) served level] at same
    exact nomatch (Prod.mk.inj same).1

/-- The messages of the second part are stored behind those of the first, as in one window. -/
theorem cut_stored (handed : HandedOver t t' l l' (first :: rest) (next :: later) out) (nonempty : out ≠ [])
    (served : Served (InboxTracker.getDelayedMessage t.db) (first :: rest) l.last.delayedMessageCount)
    (final : (readsFrom (getPrevPrevDelayedRead t.db l.last.messageCount) out).getLast? =
      some (readAfter (first :: rest) l.last.delayedMessageCount))
    (level : out.length = countedMessages (first :: rest) l.last.delayedMessageCount)
    {out' : List MessageWithMetadataAndBlockInfo} (more : out' ≠ [])
    (chain : (readsFrom (readAfter (first :: rest) l.last.delayedMessageCount) out').IsChain
      fun before read => read ≤ before + 1)
    (given : InboxTracker.streamBatches t'.db (next :: later) l'.last.delayedMessageCount = .ok out') :
    outcome (InboxTracker.addSequencerBatchesAndStream (next :: later) t') =
      (.ok (), t.db.write (ingestOps l.last l.batches.length (out ++ out')
        (described l.last (first :: (rest ++ next :: later))))) := by
  obtain ⟨count, _, _⟩ := lastDescribed_spec served rfl
  have stored : l'.last.messageCount = l.last.messageCount + out.length := by
    rw [handed.last, count, level]
  have passes : checkDelayedReads l'.last.messageCount
      (getPrevPrevDelayedRead t'.db l'.last.messageCount) out' = .ok () := by
    rw [stored, handed.previousRead nonempty final]
    exact checkDelayedReads_eq_ok.mpr chain
  obtain ⟨t₂, _, ran, db, _⟩ := (handed.combined served level).ingest_accepted handed.valid given more passes
  rw [ran, outcome, db, handed.db, handed.last, handed.length, ← described_length served l.last,
    ← List.cons_append, described_append served]
  congr 1
  symm
  apply ingestOps_append
  change (lastDescribed l.last (first :: rest)).messageCount = _
  rw [count, level]

/-- The first part runs to its end and is ingested; then all depends on the second call. -/
theorem cut_accepted (combined : Combined t l)
    (valid : ValidOnL1 t l (first :: (rest ++ next :: later)))
    (handed : HandedOver t t' l l' (first :: rest) (next :: later) out) (nonempty : out ≠ [])
    (served : Served (InboxTracker.getDelayedMessage t.db) (first :: rest) l.last.delayedMessageCount)
    (chain : (readsFrom (getPrevPrevDelayedRead t.db l.last.messageCount) out).IsChain
      fun before read => read ≤ before + 1)
    (final : (readsFrom (getPrevPrevDelayedRead t.db l.last.messageCount) out).getLast? =
      some (readAfter (first :: rest) l.last.delayedMessageCount))
    (whole : InboxTracker.streamBatches t.db (first :: (rest ++ next :: later))
        l.last.delayedMessageCount = ((Feed.between (next :: later)
          (readAfter (first :: rest) l.last.delayedMessageCount)).drainAll
            (InboxTracker.getDelayedMessage t.db)).map (out ++ ·)) :
    outcome (InboxTracker.addSequencerBatchesAndStream (first :: (rest ++ next :: later)) t) =
      outcome (InboxTracker.addSequencerBatchesAndStream (next :: later) t') ↔
    out.length = countedMessages (first :: rest) l.last.delayedMessageCount ∧
      Streamable (InboxTracker.getDelayedMessage t.db) (next :: later)
        (readAfter (first :: rest) l.last.delayedMessageCount) ∧ ¬ OpensUnknown next := by
  obtain ⟨_, delayed, _⟩ := lastDescribed_spec served rfl
  have given : InboxTracker.streamBatches t'.db (next :: later) l'.last.delayedMessageCount =
      (Feed.between (next :: later) (readAfter (first :: rest) l.last.delayedMessageCount)).drainAll
        (InboxTracker.getDelayedMessage t.db) := by
    rw [streamBatches_eq, handed.inbox, handed.last, delayed]
  have served' := handed.valid.served
  rw [handed.inbox, handed.last, delayed] at served'
  rcases drainAll_cases served' with ⟨broken, failed⟩ | ⟨sound, out', last', run', done⟩
  · rw [failed] at whole given
    exact iff_of_false (cut_broken combined valid handed served whole given) fun both => broken both.2.1
  · rw [done] at whole given
    obtain ⟨chain', _, _⟩ := run'.reads served'
    have passes : checkDelayedReads l.last.messageCount
        (getPrevPrevDelayedRead t.db l.last.messageCount) (out ++ out') = .ok () :=
      checkDelayedReads_eq_ok.mpr (reads_append chain final chain')
    obtain ⟨tw, _, ran, db, _⟩ := combined.ingest_accepted valid whole (by simp [nonempty]) passes
    have opens := streamBatches_eq_nil_iff given
    rw [ran, outcome, db]
    by_cases level : out.length = countedMessages (first :: rest) l.last.delayedMessageCount
    · by_cases silent : out' = []
      · subst silent
        obtain ⟨t₂, ran', db', _⟩ := (handed.combined served level).ingest_nil handed.valid given
        have stopped : outcome (InboxTracker.addSequencerBatchesAndStream (next :: later) t') = (.ok (), t'.db) := by
          rw [ran', outcome, db']
        exact iff_of_false (handed.not_recorded served valid stopped) fun both => both.2.2 (opens.mp rfl)
      · refine iff_of_true ?_ ⟨level, sound, fun unknown => silent (opens.mpr unknown)⟩
        exact (cut_stored handed nonempty served final level silent chain' given).symm
    · exact iff_of_false (handed.not_recorded served valid (handed.skips (by simp) served level))
        fun both => level both.1

/-- The first part runs to its end and is refused, in two calls as in one window, unless the
stream breaks behind it. -/
theorem cut_refused (combined : Combined t l) (valid : ValidOnL1 t l (first :: (rest ++ next :: later)))
    (served' : Served (InboxTracker.getDelayedMessage t.db) (next :: later)
      (readAfter (first :: rest) l.last.delayedMessageCount)) (nonempty : out ≠ []) {e : Error}
    (alone : InboxTracker.streamBatches t.db (first :: rest) l.last.delayedMessageCount = .ok out)
    (jumps : ∀ more, checkDelayedReads l.last.messageCount (getPrevPrevDelayedRead t.db l.last.messageCount)
      (out ++ more) = .error e) (apart : e ≠ .brotli)
    (whole : InboxTracker.streamBatches t.db (first :: (rest ++ next :: later))
        l.last.delayedMessageCount = ((Feed.between (next :: later)
          (readAfter (first :: rest) l.last.delayedMessageCount)).drainAll
            (InboxTracker.getDelayedMessage t.db)).map (out ++ ·)) :
    outcome (InboxTracker.addSequencerBatchesAndStream (first :: (rest ++ next :: later)) t) =
      outcome (ingestParts (first :: rest) (next :: later) t) ↔
    Streamable (InboxTracker.getDelayedMessage t.db) (next :: later)
      (readAfter (first :: rest) l.last.delayedMessageCount) := by
  have jump := jumps []
  rw [List.append_nil] at jump
  have head : ValidOnL1 t l (first :: rest) := ValidOnL1.head valid
  rw [parts_of_error (combined.ingest_refused head alone nonempty jump)]
  rcases drainAll_cases served' with ⟨broken, failed⟩ | ⟨sound, out', _, _, done⟩
  · rw [failed] at whole
    rw [combined.ingest_error valid whole]
    exact iff_of_false (fun same => apart (Except.error.inj (Prod.mk.inj same).1).symm) broken
  · rw [done] at whole
    rw [combined.ingest_refused valid whole (by simp [nonempty]) (jumps out')]
    exact iff_of_true rfl sound

/-- Whether a list of batches is ingested by one call or by two makes no difference
exactly when it may be cut there. -/
theorem same_outcome_iff (combined : Combined t l) (valid : ValidOnL1 t l (front ++ back)) :
    SameOutcome t front back ↔ MayCut t l front back := by
  match front, back with
  | [], back => exact iff_of_true rfl (by cases back <;> trivial)
  | first :: rest, [] =>
    refine iff_of_true ?_ trivial
    rw [SameOutcome, List.append_nil]
    cases ran : InboxTracker.addSequencerBatchesAndStream (first :: rest) t with
    | ok a t' => rw [parts_of_ok ran]; rfl
    | error e t' => rw [ingestParts, bind_error ran]
  | first :: rest, next :: later =>
    obtain ⟨served, served'⟩ := valid.served.append
    have stream (batches : List SequencerInboxBatch) :=
      streamBatches_eq t.db batches l.last.delayedMessageCount
    have nothing := List.append_nil (first :: rest)
    rcases drainAll_append served with ⟨broken, failed⟩ | ⟨sound, hidden, out, last, run, given⟩ |
      ⟨sound, closed, out, run, _, exact, given⟩
    · have together : ValidOnL1 t l (first :: (rest ++ next :: later)) := valid
      refine iff_of_true ?_ (.inl broken)
      rw [SameOutcome, List.cons_append, parts_of_error
        (combined.ingest_error valid.head ((stream _).trans (nothing ▸ failed [])))]
      exact combined.ingest_error together ((stream _).trans (failed (next :: later)))
    · exact cut_ended combined valid sound hidden run ((stream _).trans (nothing ▸ given []))
        ((stream _).trans (given (next :: later)))
    · have together : ValidOnL1 t l (first :: (rest ++ next :: later)) := valid
      have nonempty : out ≠ [] := by
        rintro rfl
        nomatch run
      have alone : InboxTracker.streamBatches t.db (first :: rest) l.last.delayedMessageCount =
          .ok out := by
        rw [stream, ← nothing, given, Feed.drainAll_none rfl]
        exact congrArg Except.ok (List.append_nil out)
      have whole := (stream _).trans (given (next :: later))
      rw [List.cons_append] at whole
      have known : ¬ OpensUnknown first :=
        fun unknown => nonempty ((streamBatches_eq_nil_iff alone).mpr unknown)
      rw [SameOutcome, List.cons_append]
      rcases check_run served run nonempty with ⟨refused, e, apart, jumps⟩ | ⟨accepted, chain, final⟩
      · rw [cut_refused combined together served' nonempty alone jumps apart whole]
        constructor
        · intro sound'
          exact .inr (.inl ⟨refused, known, (streamable_append served).mpr ⟨sound, fun _ => sound'⟩⟩)
        · rintro (unsound | ⟨_, _, streams⟩ | ⟨accepted, _⟩)
          · exact absurd sound unsound
          · exact ((streamable_append served).mp streams).2 closed
          · exact absurd refused accepted
      · have passes : checkDelayedReads l.last.messageCount
            (getPrevPrevDelayedRead t.db l.last.messageCount) out = .ok () :=
          checkDelayedReads_eq_ok.mpr chain
        obtain ⟨t', l', ran, handed⟩ := combined.handedOver valid alone nonempty passes
        rw [parts_of_ok ran, cut_accepted combined together handed nonempty served chain final whole,
          exact]
        constructor
        · rintro ⟨exact, sound', known'⟩
          exact .inr (.inr ⟨accepted, closed, exact, sound', known'⟩)
        · rintro (unsound | ⟨refused, _⟩ | ⟨_, _, exact, sound', known'⟩)
          · exact absurd sound unsound
          · exact absurd refused accepted
          · exact ⟨exact, sound', known'⟩

end Cut

section Samples
open Codecs

theorem initialTracker_combined : Combined initialTracker .empty := by
  refine ⟨initializeTracker_represents (.refl _ _), fun i _ => ?_, by decide +kernel⟩
  have tables : initialTracker.db.get = Store.empty.get := (restart_spec .empty).1
  rw [tables, Store.get_empty]

theorem served_sample {inbox : Nat → Except Error L1IncomingMessage} {number : Nat}
    {segments : List Bytes} {later : List SequencerInboxBatch}
    (fits : segments.length ≤ segmentCap + 1) (rest : Served inbox later 0) :
    Served inbox (batch number 0 segments :: later) 0 :=
  have ordered : (0 : UInt64) ≤ 0xffffffffffffffff := by decide
  ⟨_, parse_batch number (by decide) fits, ⟨ordered, ordered⟩, rfl, le_rfl,
    fun i _ below => absurd below (Nat.not_lt_zero i), rest⟩

/-- Two batches with one message each, in one call or in two. -/
theorem l2_batches_cut : Combined initialTracker .empty ∧
    ValidOnL1 initialTracker .empty ([batch 0 0 [[0, 7]]] ++ [batch 1 0 [[0, 8]]]) ∧
    SameOutcome initialTracker [batch 0 0 [[0, 7]]] [batch 1 0 [[0, 8]]] := by
  have valid : ValidOnL1 initialTracker .empty ([batch 0 0 [[0, 7]]] ++ [batch 1 0 [[0, 8]]]) :=
    ⟨rfl, served_sample (by decide) (served_sample (by decide) trivial)⟩
  have first := parse_batch 0 (show 0 < 2 ^ 64 by decide) (show [[0, 7]].length ≤ segmentCap + 1 by decide)
  have second := parse_batch 1 (show 0 < 2 ^ 64 by decide)
    (show [[0, 8]].length ≤ segmentCap + 1 by decide)
  refine ⟨initialTracker_combined, valid, (same_outcome_iff initialTracker_combined valid).mpr ?_⟩
  refine .inr (.inr ⟨?_, ?_, ?_, ?_, ?_⟩)
  · rintro ⟨seq, parsed, jump⟩
    cases first.symm.trans parsed
    exact absurd jump (by decide +kernel)
  · intro seq parsed
    cases first.symm.trans parsed
    exact ⟨⟨rfl, (nothingHidden_message rfl rfl).mpr nothingHidden_nil⟩, trivial⟩
  · intro seq parsed
    cases first.symm.trans parsed
    exact ⟨⟨.inr rfl, by decide⟩, trivial⟩
  · intro seq parsed
    cases second.symm.trans parsed
    exact ⟨rfl, fun _ => trivial⟩
  · rintro ⟨seq, parsed, unknown⟩
    cases second.symm.trans parsed
    exact absurd unknown (by decide)

/-- A batch without segments gives a placeholder that the tracker does not count, so a
second call skips the batch behind it. -/
theorem empty_batch_cut : Combined initialTracker .empty ∧
    ValidOnL1 initialTracker .empty ([batch 0 0 []] ++ [batch 1 0 [[0, 8]]]) ∧
    ¬ SameOutcome initialTracker [batch 0 0 []] [batch 1 0 [[0, 8]]] := by
  refine ⟨initialTracker_combined, ⟨rfl, served_sample (by decide) (served_sample (by decide) trivial)⟩,
    fun same => ?_⟩
  have counts : (outcome (InboxTracker.addSequencerBatchesAndStream
      ([batch 0 0 []] ++ [batch 1 0 [[0, 8]]]) initialTracker)).2.count .sequencerBatchCount ≠
    (outcome (ingestParts [batch 0 0 []] [batch 1 0 [[0, 8]]] initialTracker)).2.count
      .sequencerBatchCount := by decide +kernel
  exact counts (congrArg (fun r => r.2.count .sequencerBatchCount) same)

end Samples

end NitroRs
