import NitroRs.Inbox.CombinedRuns
import NitroRs.Inbox.PlainBatches

/-! Whether the message store follows the batch list: runs of the tracker over the real
streamer, with the reorgs that drop batches and leave their messages behind. -/
namespace NitroRs
open KeyValue Outcome TransactionStreamer

/-- The message count is the one recorded for the last stored batch, zero without batches. -/
def MessagesFollow (db : Db) : Prop := ∃ n m, db.count .sequencerBatchCount = some n ∧
  storedPrevious db n = some m ∧ db.count .messageCount = some m.messageCount

/-- Every batch ends behind the one before it. -/
def Ledger.Growing (l : Ledger) : Prop :=
  (BatchMetadata.zero :: l.batches).IsChain fun m m' => m.messageCount < m'.messageCount

namespace Ledger
variable {l l' : Ledger} {i j pos : Nat} {m m' : BatchMetadata}

theorem previous_eq (l : Ledger) (i : Nat) : l.previous i = (BatchMetadata.zero :: l.batches)[i]? := by
  cases i with
  | zero => rfl
  | succ i => rfl

theorem Growing.lt (growing : l.Growing) (first : l.previous i = some m) (second : l.previous j = some m')
    (order : i < j) : m.messageCount < m'.messageCount := by
  rw [previous_eq] at first second
  obtain ⟨inside, rfl⟩ := List.getElem?_eq_some_iff.mp first
  obtain ⟨inside', rfl⟩ := List.getElem?_eq_some_iff.mp second
  exact List.pairwise_iff_getElem.mp (List.isChain_iff_pairwise.mp growing) _ _ inside inside' order

theorem Growing.take (growing : l.Growing) (cut : l'.batches = l.batches.take pos) : l'.Growing := by
  rw [Growing, cut]
  exact List.isChain_iff_pairwise.mpr
    ((List.isChain_iff_pairwise.mp growing).sublist ((List.take_sublist _ _).cons_cons _))

/-- A shorter list of batches ends at another message. -/
theorem Growing.last_eq_iff (growing : l.Growing) (cut : l'.batches = l.batches.take pos) :
    l.last.messageCount = l'.last.messageCount ↔ l'.batches = l.batches := by
  constructor
  · intro same
    by_contra shorter
    have short : l'.batches.length < l.batches.length := by
      by_contra whole
      rw [cut, List.length_take] at whole
      exact shorter (cut.trans (List.take_of_length_le (by omega)))
    have here : l.previous l'.batches.length = some l'.last := by
      rw [← l'.previous_last, previous_eq, previous_eq, cut, ← List.take_succ_cons, List.length_take,
        List.getElem?_take, if_pos (by omega)]
    have order := growing.lt here l.previous_last short
    omega
  · intro same
    rw [Ledger.last, Ledger.last, same]

/-- Batches go on from the one that they are behind. -/
theorem Growing.append {metas : List BatchMetadata} (growing : l.Growing)
    (behind : l.previous pos = some m) (more : (m :: metas).IsChain
      fun m m' => m.messageCount < m'.messageCount)
    (joined : l'.batches = l.batches.take pos ++ metas) : l'.Growing := by
  have front : (BatchMetadata.zero :: l.batches.take pos).dropLast ++ [m] =
      BatchMetadata.zero :: l.batches.take pos := by
    apply List.dropLast_append_getLast?
    rw [← List.take_succ_cons, List.getLast?_take, if_neg (Nat.succ_ne_zero pos), Nat.add_sub_cancel,
      ← previous_eq, behind]
    rfl
  have kept : (BatchMetadata.zero :: l.batches.take pos).IsChain
      fun m m' => m.messageCount < m'.messageCount :=
    List.isChain_iff_pairwise.mpr
      ((List.isChain_iff_pairwise.mp growing).sublist ((List.take_sublist _ _).cons_cons _))
  rw [Growing, joined, ← List.cons_append, ← front, List.append_assoc]
  exact List.isChain_split.mpr ⟨by rwa [front], more⟩

end Ledger

theorem map_numberFrom {α : Type} (n : Nat) (as : List α) : (numberFrom n as).map (·.2) = as := by
  induction as generalizing n with
  | nil => rfl
  | cons a as ih => rw [numberFrom, List.map_cons, ih]

section
variable [Externals] {t t' : InboxTracker} {l l' : Ledger} {n : Nat}

theorem messagesFollow_iff (represents : RepresentsWith n t l) :
    MessagesFollow t.db ↔ t.db.count .messageCount = some l.last.messageCount := by
  have last := (represents.storedPrevious_eq _).trans l.previous_last
  constructor
  · rintro ⟨_, m, count, stored, messages⟩
    cases represents.batchCount.symm.trans count
    cases last.symm.trans stored
    exact messages
  · exact fun messages => ⟨_, _, represents.batchCount, last, messages⟩

/-- Plain batches are recorded with growing message counts, up to what they emit. -/
theorem describeBatches_plain {batches : List SequencerInboxBatch} {m : BatchMetadata}
    (plain : PlainBatches batches m.delayedMessageCount) : ∃ entries,
    InboxTracker.describeBatches m batches = .ok entries ∧
      (m :: entries.map (·.2)).IsChain (fun m m' => m.messageCount < m'.messageCount) ∧
      (((entries.map (·.2)).getLast?).getD m).messageCount =
        m.messageCount + countedMessages batches m.delayedMessageCount := by
  induction batches generalizing m with
  | nil => exact ⟨[], rfl, List.isChain_singleton m, rfl⟩
  | cons b later ih =>
    obtain ⟨seq, parsed, header, _, segments, plain⟩ := plain
    obtain ⟨entries, described, chain, last⟩ := ih (m := InboxTracker.batchMetadata m b seq) plain
    have counted := segments.counted
    rw [header] at counted
    refine ⟨(b.sequenceNumber, InboxTracker.batchMetadata m b seq) :: entries, ?_,
      List.isChain_cons_cons.mpr ⟨?_, chain⟩, ?_⟩
    · rw [InboxTracker.describeBatches, parsed]
      dsimp only
      rw [described]
      rfl
    · rw [InboxTracker.batchMetadata]
      dsimp only
      omega
    · rw [List.map_cons, List.getLast?_cons, Option.getD_some, last, countedMessages, parsed]
      dsimp only [InboxTracker.batchMetadata]
      omega

theorem PlainBatches.nondecreasing {batches : List SequencerInboxBatch} {read : Nat}
    (plain : PlainBatches batches read) : Nondecreasing read batches := by
  refine nondecreasing_of_above (fun b later read plain => ?_) plain
  obtain ⟨_, _, _, above, _, rest⟩ := plain
  exact ⟨above, rest⟩

/-- Numbers and accumulators that go on from each batch to the next. -/
def Chained : Nat → B256 → List SequencerInboxBatch → Prop
  | _, _, [] => True
  | pos, acc, b :: later =>
      b.sequenceNumber = pos ∧ acc = b.beforeInboxAcc ∧ Chained (pos + 1) b.afterInboxAcc later

/-- The delayed messages that the batches read up to are the stored ones. -/
def DelayedMatch (db : Db) (batches : List SequencerInboxBatch) : Prop :=
  ∀ b ∈ batches, 0 < b.afterDelayedCount →
    InboxTracker.getDelayedAcc db (b.afterDelayedCount - 1) = .ok b.afterDelayedAcc

theorem checkBatches_chained {db : Db} {pos : Nat} {acc : B256} {batches : List SequencerInboxBatch}
    (chained : Chained pos acc batches) :
    InboxTracker.checkBatches db pos acc batches = .ok () ↔ DelayedMatch db batches := by
  induction batches generalizing pos acc with
  | nil => exact iff_of_true rfl fun _ member => absurd member List.not_mem_nil
  | cons b later ih =>
    obtain ⟨number, before, rest⟩ := chained
    rw [InboxTracker.checkBatches, if_neg (not_not.mpr number), if_neg (not_not.mpr before),
      DelayedMatch, List.forall_mem_cons]
    have read : (InboxTracker.getDelayedAcc db (b.afterDelayedCount - 1)).toOption =
        some b.afterDelayedAcc ↔ InboxTracker.getDelayedAcc db (b.afterDelayedCount - 1) =
          .ok b.afterDelayedAcc := by
      cases InboxTracker.getDelayedAcc db (b.afterDelayedCount - 1) with
      | error e => simp [Except.toOption]
      | ok acc => simp [Except.toOption]
    split
    · rename_i wrong
      exact iff_of_false (by simp) fun both => wrong.2 (read.mpr (both.1 wrong.1))
    · rename_i right
      rw [ih rest]
      refine ⟨fun matching => ⟨fun positive => ?_, matching⟩, fun both => both.2⟩
      exact read.mp (not_not.mp fun other => right ⟨positive, other⟩)

end

section Ingestion
variable [Externals] {t t' : InboxTracker} {l : Ledger} {n : Nat} {first : SequencerInboxBatch}
  {rest : List SequencerInboxBatch} {c : Nat} {out : List MessageWithMetadataAndBlockInfo}

/-- Where the message count follows the batches, only batches behind the last one get
to the streamer. -/
theorem Streams.behind_last (represents : RepresentsWith n t l) (growing : l.Growing)
    (level : t.db.count .messageCount = some l.last.messageCount)
    (streams : Streams t (first :: rest) c out t') :
    first.sequenceNumber = l.batches.length ∧ c = l.last.messageCount ∧ t'.db = t.db ∧
      RepresentsWith n t' l ∧ InboxTracker.streamBatches t.db (first :: rest) l.last.delayedMessageCount =
        .ok out := by
  obtain ⟨_, _, m, t₁, read, ⟨rfl, rfl⟩, previous, aligned, given⟩ := streams.path
  cases level.symm.trans streams.counted
  rcases previousMetadata_represents represents first.sequenceNumber with
    ⟨m', t₁', found, previous', db, represents₁⟩ | ⟨_, e, failed⟩
  swap
  · cases previous.symm.trans failed
  cases previous.symm.trans previous'
  have inside := (Ledger.previous_eq_some found).1
  have kept := alignWindow_keeps (n := n) (l := l) first.sequenceNumber m l.last.messageCount t₁ represents₁
  rw [aligned] at kept
  by_cases same : l.last.messageCount = m.messageCount
  · have next : first.sequenceNumber = l.batches.length := by
      by_contra apart
      have := growing.lt found l.previous_last (by omega)
      omega
    rw [next, l.previous_last] at found
    cases found
    rw [InboxTracker.alignWindow, if_pos rfl] at aligned
    cases aligned
    exact ⟨next, rfl, db, kept, db ▸ given⟩
  · rw [InboxTracker.alignWindow, if_neg same] at aligned
    cases length : l.batches.length with
    | zero =>
      have next : first.sequenceNumber = l.batches.length := by omega
      rw [next, l.previous_last] at found
      cases found
      exact absurd rfl same
    | succ i =>
      have counted : (InboxTracker.repaired t₁.db).count .sequencerBatchCount = some (i + 1) := by
        rw [represents₁.repaired, represents₁.batchCount, length]
      have last : t₁.metadataAt i = some l.last := by
        rw [represents₁.metadataAt, ← l.previous_last, length]
        rfl
      obtain ⟨t₂, past⟩ := InboxTracker.isAligned_past first.sequenceNumber counted last le_rfl
      rw [bind_ok past, bind_read] at aligned
      cases aligned

/-- Recording plain batches that are chained to the last one: it works where their delayed
messages match, and then the message count of the last batch grows by what they emit. -/
theorem addSequencerBatches_plain (represents : RepresentsWith n t l)
    (next : first.sequenceNumber = l.batches.length)
    (plain : PlainBatches (first :: rest) l.last.delayedMessageCount)
    (chained : Chained first.sequenceNumber l.last.accumulator (first :: rest)) :
    ∃ t' l', final (InboxTracker.addSequencerBatches (first :: rest) t) = t' ∧ RepresentsWith n t' l' ∧
      t'.db.count .messageCount = t.db.count .messageCount ∧
      (DelayedMatch t.db (first :: rest) → l'.last.messageCount = l.last.messageCount +
        countedMessages (first :: rest) l.last.delayedMessageCount) ∧
      (¬ DelayedMatch t.db (first :: rest) → l' = l) := by
  have behind : l.previous first.sequenceNumber = some l.last := next ▸ l.previous_last
  have promised (m : BatchMetadata) (found : l.previous first.sequenceNumber = some m) :
      Nondecreasing m.delayedMessageCount (first :: rest) := by
    cases behind.symm.trans found
    exact plain.nondecreasing
  obtain ⟨entries, described, _, last⟩ := describeBatches_plain plain
  rcases addSequencerBatches_represents represents promised with
    ⟨e, t', failed, db, represents'⟩ |
    ⟨m, metas, t', sorted, bounded, found, described', added, represents', frame⟩
  · have refused : ¬ DelayedMatch t.db (first :: rest) := by
      intro matching
      rcases previousMetadata_represents represents first.sequenceNumber with
        ⟨m, t₀, found, previous, _⟩ | ⟨missing, _⟩
      · cases behind.symm.trans found
        obtain ⟨cache, recorded⟩ := InboxTracker.addSequencerBatches_recorded previous
          ((checkBatches_chained chained).mpr matching) described
        cases failed.symm.trans recorded
      · cases behind.symm.trans missing
    refine ⟨t', l, by rw [failed, final_error], represents', by rw [db], ?_, fun _ => rfl⟩
    exact fun matching => absurd matching refused
  · cases behind.symm.trans found
    rw [described] at described'
    rw [Except.ok.inj described', map_numberFrom] at last
    refine ⟨t', _, by rw [added, final_ok], represents', frame.count _ rfl, fun _ => ?_, ?_⟩
    · rw [← last, Ledger.last]
      change ((l.batches.take first.sequenceNumber ++ metas).getLast?.getD _).messageCount = _
      rw [List.take_of_length_le next.ge, List.getLast?_append, Ledger.last]
      cases metas.getLast? with
      | none => rfl
      | some m => rfl
    · intro refused
      obtain ⟨m, t₀, _, previous, checked, _⟩ := InboxTracker.addSequencerBatches_eq_recorded added
      rcases previousMetadata_represents represents first.sequenceNumber with
        ⟨m', t₀', found', previous', _⟩ | ⟨missing, _⟩
      · cases behind.symm.trans found'
        cases previous.symm.trans previous'
        exact absurd ((checkBatches_chained chained).mp checked) refused
      · cases behind.symm.trans missing

/-- An ingestion where the message count follows the batches: it still does, unless the
streamer takes the messages of batches that the tracker refuses. -/
theorem ingest_follows_iff (represents : RepresentsWith n t l) (tidy : NothingPastCount t.db)
    (growing : l.Growing) (level : t.db.count .messageCount = some l.last.messageCount)
    (plain : ∀ m, storedPrevious t.db first.sequenceNumber = some m →
      PlainBatches (first :: rest) m.delayedMessageCount ∧
        Chained first.sequenceNumber m.accumulator (first :: rest)) :
    MessagesFollow (final (InboxTracker.addSequencerBatchesAndStream (first :: rest) t)).db ↔
      (Commits t (first :: rest) → DelayedMatch t.db (first :: rest)) := by
  obtain ⟨t', db', _, ⟨silent, ended⟩ | ⟨c, out, streams, only, reached⟩⟩ := ingest_cases t first rest
  · have same : (final (InboxTracker.addSequencerBatchesAndStream (first :: rest) t)).db = t.db := by
      rw [represents.repaired, or_self] at db'
      rw [final_of_ended ended, db']
    refine iff_of_true (same ▸ (messagesFollow_iff represents).mpr level) ?_
    rintro ⟨c, out, t₂, _, streams, _⟩
    exact absurd streams (silent c out t₂)
  · obtain ⟨next, rfl, db, represents', given⟩ := streams.behind_last represents growing level
    obtain ⟨plain, chained⟩ := plain l.last
      ((represents.storedPrevious_eq _).trans (next ▸ l.previous_last))
    have length := streamBatches_plain plain given
    have some := List.length_pos_iff.mpr streams.nonempty
    have counted : messageCountOrZero t'.db = l.last.messageCount := by
      rw [db, messageCountOrZero, level, Option.getD_some]
    have tidy' : NothingPastCount t'.db := db ▸ tidy
    rw [reached]
    rcases append_cases tidy' l.last.messageCount true out none with
      ⟨apart, _⟩ | ⟨_, ⟨e, _, refused⟩ | ⟨_, accepted⟩⟩
    · exact absurd counted.symm apart
    · change addConfirmedMessagesAndEndBatch _ _ _ _ = _ at refused
      rw [bind_error (InboxTracker.onStreamer_error refused), final_error]
      refine iff_of_true ((messagesFollow_iff represents').mpr (db ▸ level)) ?_
      rintro ⟨c, out', t₂, db₂, streams', accepted, _⟩
      obtain ⟨rfl, rfl, rfl⟩ := only _ _ _ streams'
      cases refused.symm.trans accepted
    · rw [if_neg streams.nonempty] at accepted
      change addConfirmedMessagesAndEndBatch _ _ _ _ = _ at accepted
      have commits : Commits t (first :: rest) := by
        refine ⟨_, out, t', _, streams, accepted, ?_⟩
        rw [← counted, countDuplicateMessages_fresh tidy']
        exact some
      have frame : Agree .tracker t'.db (t'.db.write (writeMessages none l.last.messageCount out)) :=
        .write (writeMessages_owner none l.last.messageCount out)
      have represents₁ := represents'.of_agree frame
      have accs : InboxTracker.getDelayedAcc (t'.db.write (writeMessages none l.last.messageCount out)) =
          InboxTracker.getDelayedAcc t.db := by
        funext i
        rw [represents₁.getDelayedAcc, represents.getDelayedAcc]
      obtain ⟨t₂, l', ran, represents₂, count, recorded, refused⟩ :=
        addSequencerBatches_plain represents₁ next plain chained
      simp only [DelayedMatch, accs] at recorded refused
      rw [imp_iff_right commits, bind_ok (InboxTracker.onStreamer_ok accepted), ran,
        messagesFollow_iff represents₂, count, count_write_writeMessages, length, Option.some.injEq]
      constructor
      · intro same
        by_contra refusal
        rw [refused refusal] at same
        omega
      · exact fun matching => (recorded matching).symm

end Ingestion

/-- No stored batch reads more delayed messages. -/
def ReadNoFurther (db : Db) (count : Nat) : Prop :=
  ∀ i m, db.get .sequencerBatchMeta i = some m → m.delayedMessageCount ≤ count

section Cuts
variable [Externals] {t t' : InboxTracker} {l l' : Ledger} {n n' pos : Nat}

/-- A cut of the delayed messages drops the batches that read further and no message. -/
theorem cut_follows_iff (represents : RepresentsWith n t l) (growing : l.Growing)
    (level : t.db.count .messageCount = some l.last.messageCount) (represents' : RepresentsWith n' t' l')
    (cut : l'.batches = l.batchesUpTo pos) (frame : Agree .streamer t.db t'.db) :
    MessagesFollow t'.db ↔ ReadNoFurther t.db pos := by
  rw [messagesFollow_iff represents', frame.count _ rfl, level, Option.some.injEq,
    growing.last_eq_iff (cut.trans Ascending.upTo_eq_take), cut, Ledger.batchesUpTo, Ascending.upTo,
    List.takeWhile_eq_self_iff]
  simp only [ReadNoFurther, represents.metas, decide_eq_true_eq]
  constructor
  · exact fun all i m here => all m (List.mem_of_getElem? here)
  · intro all m member
    obtain ⟨i, here⟩ := List.mem_iff_getElem?.mp member
    exact all i m here

/-- Delayed messages that are in order and chained to the stored ones. -/
def Accepted (db : Db) (inputs : List DelayedInput) (pos : Nat) : Prop :=
  ∃ before bytes rest acc ops, inputs = (pos, before, bytes) :: rest ∧
    InboxTracker.previousAccumulator db .zero pos = .ok acc ∧
    InboxTracker.queueDelayed pos acc inputs = .ok ops

theorem addDelayedMessages_accepted {inputs : List DelayedInput} (accepted : Accepted t.db inputs pos) :
    ∃ t', InboxTracker.addDelayedMessages inputs none t = .ok () t' := by
  obtain ⟨before, bytes, rest, acc, ops, given, previous, queued⟩ := accepted
  obtain ⟨ds, rfl, -⟩ := inputs_of_queueDelayed queued
  have some : ds ≠ [] := by
    rintro rfl
    contradiction
  obtain ⟨ops', t', set, _⟩ := TrackerUpdate.setDelayedCount_db (delayedPuts pos acc ds)
    (Nat.le_add_right pos ds.length) t
  exact ⟨_, (addDelayedMessages_continuing previous some).trans
    ((bind_ok set).trans (writeBatch_apply ops' t'))⟩

theorem accepted_of_ok {inputs : List DelayedInput} {before : B256} {bytes : Bytes}
    {rest : List DelayedInput} (given : inputs = (pos, before, bytes) :: rest)
    (added : InboxTracker.addDelayedMessages inputs none t = .ok () t') : Accepted t.db inputs pos := by
  subst given
  rw [InboxTracker.addDelayedMessages, bind_read] at added
  simp only [InboxTracker.snapSyncSkip] at added
  obtain ⟨acc, t₁, previous, added⟩ := bind_eq_ok.mp added
  obtain ⟨ops, t₂, queued, _⟩ := bind_eq_ok.mp added
  exact ⟨before, bytes, rest, acc, ops, rfl, (lift_eq_ok.mp previous).1, (lift_eq_ok.mp queued).1⟩

/-- Delayed messages keep the message count with the batches exactly when they replace none
that a stored batch reads. -/
theorem addDelayed_follows_iff (represents : RepresentsWith n t l) (growing : l.Growing)
    (level : t.db.count .messageCount = some l.last.messageCount) (inputs : List DelayedInput) :
    MessagesFollow (final (InboxTracker.addDelayedMessages inputs none t)).db ↔
      ∀ pos, Accepted t.db inputs pos → ReadNoFurther t.db (keptUpTo pos) := by
  have unchanged := (messagesFollow_iff represents).mpr level
  rcases addDelayedMessages_represents represents inputs with
    ⟨e, failed⟩ | ⟨rfl, same⟩ | ⟨pos, before, bytes, rest, ds, t', given, added, _, _, represents', frame⟩
  · rw [failed, final_error]
    refine iff_of_true unchanged fun pos accepted => ?_
    obtain ⟨t', added⟩ := addDelayedMessages_accepted accepted
    cases failed.symm.trans added
  · rw [same, final_ok]
    refine iff_of_true unchanged ?_
    rintro pos ⟨_, _, _, _, _, given, _⟩
    cases given
  · rw [added, final_ok, cut_follows_iff represents growing level represents' rfl frame]
    constructor
    · rintro all pos' ⟨_, _, _, _, _, given', _⟩
      cases given.symm.trans given'
      exact all
    · exact fun all => all pos (accepted_of_ok given added)

end Cuts

/-- A call on the tracker over the real streamer. -/
inductive InboxOp where
  | addDelayedMessages (messages : List DelayedInput) (snapSync : Option SnapSyncConfig)
  | addSequencerBatchesAndStream (batches : List SequencerInboxBatch)
  | reorgDelayedTo (count : Nat)

namespace InboxOp
variable [Externals] {t : InboxTracker} {op : InboxOp}

def call : InboxOp → EStateM Error InboxTracker Unit
  | addDelayedMessages messages snapSync => InboxTracker.addDelayedMessages messages snapSync
  | addSequencerBatchesAndStream batches => InboxTracker.addSequencerBatchesAndStream batches
  | reorgDelayedTo count => InboxTracker.reorgDelayedTo count

/-- The state after the call, whether it succeeds or fails. -/
def execute (t : InboxTracker) (op : InboxOp) : InboxTracker := final (op.call t)

def run (t : InboxTracker) (ops : List InboxOp) : InboxTracker := ops.foldl execute t

/-- Batches chained to the stored one in front of them, of L2 segments and pending delayed
messages. -/
def Allowed (op : InboxOp) (t : InboxTracker) : Prop :=
  match op with
  | addDelayedMessages .. | reorgDelayedTo _ => True
  | addSequencerBatchesAndStream batches => ∀ first rest m, batches = first :: rest →
      storedPrevious t.db first.sequenceNumber = some m →
        PlainBatches batches m.delayedMessageCount ∧
          Chained first.sequenceNumber m.accumulator batches

/-- A change of the delayed messages drops no batch, and the tracker accepts the batches
whose messages the streamer takes. -/
def DropsNothing (op : InboxOp) (t : InboxTracker) : Prop :=
  match op with
  | addDelayedMessages messages snapSync => ∀ pos,
      Accepted t.db (InboxTracker.snapSyncSkip snapSync messages).2 pos → ReadNoFurther t.db (keptUpTo pos)
  | addSequencerBatchesAndStream batches => Commits t batches → DelayedMatch t.db batches
  | reorgDelayedTo count => ReadNoFurther t.db (keptUpTo count)

/-- What every call keeps. -/
def Kept (t : InboxTracker) : Prop := ∃ l n, RepresentsWith n t l ∧ NothingPastCount t.db ∧ l.Growing

theorem execute_kept (kept : Kept t) (allowed : op.Allowed t) : Kept (execute t op) := by
  obtain ⟨l, n, represents, tidy, growing⟩ := kept
  cases op with
  | addDelayedMessages messages snapSync =>
    rw [execute, call, addDelayedMessages_snapSync]
    rcases addDelayedMessages_represents represents (InboxTracker.snapSyncSkip snapSync messages).2 with
      ⟨e, failed⟩ | ⟨_, same⟩ | ⟨pos, _, _, _, ds, t', _, added, _, _, represents', frame⟩
    · rw [failed]
      exact ⟨l, n, represents, tidy, growing⟩
    · rw [same]
      exact ⟨l, n, represents, tidy, growing⟩
    · rw [added]
      exact ⟨_, _, represents', tidy.of_agree frame, growing.take Ascending.upTo_eq_take⟩
  | addSequencerBatchesAndStream batches =>
    have steady : Steady t.db batches := by
      cases batches with
      | nil => trivial
      | cons first rest => exact fun m found => (allowed first rest m rfl found).1.nondecreasing
    obtain ⟨l', represents', tidy', rfl | ⟨first, rest, m, metas, rfl, found, described, _, joined⟩⟩ :=
      ingest_recordedIn represents tidy batches steady
    · exact ⟨l', n, represents', tidy', growing⟩
    · obtain ⟨plain, _⟩ := allowed first rest m rfl ((represents.storedPrevious_eq _).trans found)
      obtain ⟨entries, described', chain, _⟩ := describeBatches_plain plain
      rw [described] at described'
      rw [← Except.ok.inj described', map_numberFrom] at chain
      exact ⟨l', n, represents', tidy', growing.append found chain joined⟩
  | reorgDelayedTo count =>
    obtain ⟨t', reorged, represents', frame⟩ := reorgDelayedTo_represents represents count
    rw [execute, call, reorged]
    exact ⟨_, _, represents', tidy.of_agree frame, growing.take Ascending.upTo_eq_take⟩

theorem execute_follows_iff (kept : Kept t) (allowed : op.Allowed t) (follows : MessagesFollow t.db) :
    MessagesFollow (execute t op).db ↔ op.DropsNothing t := by
  obtain ⟨l, n, represents, tidy, growing⟩ := kept
  have level := (messagesFollow_iff represents).mp follows
  cases op with
  | addDelayedMessages messages snapSync =>
    rw [execute, call, addDelayedMessages_snapSync]
    exact addDelayed_follows_iff represents growing level _
  | addSequencerBatchesAndStream batches =>
    cases batches with
    | nil =>
      refine iff_of_true follows ?_
      rintro ⟨_, _, _, _, streams, _⟩
      obtain ⟨_, _, _, _, _, given, _⟩ := streams.path
      cases given
    | cons first rest =>
      exact ingest_follows_iff represents tidy growing level fun m => allowed first rest m rfl
  | reorgDelayedTo count =>
    obtain ⟨t', reorged, represents', frame⟩ := reorgDelayedTo_represents represents count
    rw [execute, call, reorged]
    exact cut_follows_iff represents growing level represents' rfl frame

end InboxOp

/-- A fresh database has no batches and no messages. -/
theorem restart_kept [Externals] {db : Db} (fresh : Fresh db) (empty : EmptyStore db) :
    InboxOp.Kept (InboxTracker.restart db) ∧ MessagesFollow (InboxTracker.restart db).db := by
  have represents : Represents (InboxTracker.restart db) .empty := initializeTracker_represents fresh
  obtain ⟨tables, counters, _⟩ := restart_spec db
  have tidy : NothingPastCount (InboxTracker.restart db).db := by
    intro i _
    rw [tables, empty.empty .message rfl]
  have level : (InboxTracker.restart db).db.count .messageCount = some Ledger.empty.last.messageCount :=
    (counters .messageCount).trans (congrArg some empty.count)
  exact ⟨⟨.empty, _, represents, tidy, List.isChain_singleton _⟩, (messagesFollow_iff represents).mpr level⟩

/-- A run from a fresh database keeps the message count with the batch list exactly when no
change of the delayed messages drops a batch, and no batch is refused behind the streamer. -/
theorem messages_follow_iff [Externals] {db : Db} (fresh : Fresh db) (empty : EmptyStore db)
    (ops : List InboxOp) (allowed : ∀ n (op : InboxOp), ops[n]? = some op →
      op.Allowed (InboxOp.run (InboxTracker.restart db) (ops.take n))) :
    (∀ n, MessagesFollow (InboxOp.run (InboxTracker.restart db) (ops.take n)).db) ↔
      ∀ n (op : InboxOp), ops[n]? = some op →
        op.DropsNothing (InboxOp.run (InboxTracker.restart db) (ops.take n)) := by
  obtain ⟨kept, follows⟩ := restart_kept fresh empty
  exact Runs.forall_foldl_iff InboxOp.Kept InboxOp.Allowed
    (fun _ _ kept allowed => InboxOp.execute_kept kept allowed)
    (fun _ _ kept allowed follows => InboxOp.execute_follows_iff kept allowed follows) ops allowed
    kept follows

section Samples
open Codecs

/-- Add a delayed message. -/
def delayedOp : InboxOp := .addDelayedMessages [(0, .zero, List.replicate 113 0)] none

/-- A batch that reads it. -/
def delayedBatch : SequencerInboxBatch := { batch 0 1 [] with
  afterDelayedAcc := ((InboxTracker.getDelayedAcc
    (InboxOp.execute (InboxTracker.restart .empty) delayedOp).db 0).toOption).getD .zero }

/-- Ingest the batch, then reorg the delayed messages. -/
def reorgRun (count : Nat) : List InboxOp :=
  [delayedOp, .addSequencerBatchesAndStream [delayedBatch], .reorgDelayedTo count]

theorem reorgRun_allowed (count : Nat) : ∀ n (op : InboxOp),
    (reorgRun count)[n]? = some op →
      op.Allowed (InboxOp.run (InboxTracker.restart .empty) ((reorgRun count).take n)) := by
  intro n op here
  match n with
  | 0 =>
    cases here
    trivial
  | 1 =>
    cases here
    intro first rest m given found
    obtain ⟨rfl, rfl⟩ := List.cons.inj given
    have init (db : Db) : storedPrevious db delayedBatch.sequenceNumber = some .zero := rfl
    rw [init] at found
    cases found
    have serialized : delayedBatch.serialized = (batch 0 1 []).serialized := rfl
    have parsed := parse_batch 0 (show 1 < 2 ^ 64 by decide)
      (show ([] : List Bytes).length ≤ segmentCap + 1 from Nat.zero_le _)
    rw [← serialized] at parsed
    have plain : PlainBatches [delayedBatch] 0 :=
      ⟨_, parsed, rfl, Nat.zero_le 1, ⟨rfl, Nat.zero_le _, .inl Nat.zero_lt_one⟩, trivial⟩
    exact ⟨plain, rfl, rfl, trivial⟩
  | 2 =>
    cases here
    trivial

/-- A reorg past the delayed count drops nothing. -/
theorem reorg_past_count_follows : (∀ n, MessagesFollow (InboxOp.run (InboxTracker.restart .empty)
    ((reorgRun 5).take n)).db) ∧ (∀ n (op : InboxOp), (reorgRun 5)[n]? = some op →
      op.Allowed (InboxOp.run (InboxTracker.restart .empty) ((reorgRun 5).take n))) := by
  have allowed := reorgRun_allowed 5
  refine ⟨(messages_follow_iff (.refl _ _) ⟨rfl, fun _ _ _ => rfl⟩ (reorgRun 5) allowed).mpr ?_, allowed⟩
  intro n op here
  match n with
  | 0 =>
    cases here
    intro pos _ i m stored
    rw [show InboxOp.run (InboxTracker.restart .empty) ((reorgRun 5).take 0) =
      InboxTracker.restart .empty from rfl, (restart_spec .empty).1, Store.get_empty] at stored
    cases stored
  | 1 =>
    cases here
    rintro - b member positive
    obtain rfl := List.mem_singleton.mp member
    have read : InboxTracker.getDelayedAcc (InboxOp.run (InboxTracker.restart .empty)
      [delayedOp]).db 0 = .ok delayedBatch.afterDelayedAcc := by decide +kernel
    exact read
  | 2 =>
    cases here
    have fresh : Fresh .empty := .refl _ _
    have kept := (restart_kept fresh ⟨rfl, fun _ _ _ => rfl⟩).1
    have second : InboxOp.run (InboxTracker.restart .empty) ((reorgRun 5).take 2) =
        InboxOp.execute (InboxOp.execute (InboxTracker.restart .empty) delayedOp)
          (.addSequencerBatchesAndStream [delayedBatch]) := by
      simp only [InboxOp.run, reorgRun, List.take_succ_cons, List.take_zero, List.foldl_cons,
        List.foldl_nil]
    obtain ⟨l, n, represents, _⟩ := InboxOp.execute_kept (InboxOp.execute_kept kept (allowed 0 _ rfl))
      (allowed 1 _ rfl)
    rw [← second] at represents
    have one : (InboxOp.run (InboxTracker.restart .empty) ((reorgRun 5).take 2)).db.get .rlpDelayedMessage 1 = none := by
      decide +kernel
    have length : l.delayed.length ≤ 1 := by
      rw [represents.entries, Ledger.entry, Option.map_eq_none_iff] at one
      exact List.getElem?_eq_none_iff.mp one
    intro i m stored
    have bound := l.bounded m (List.mem_of_getElem? ((represents.metas i).symm.trans stored))
    rw [keptUpTo_of_lt (by decide)]
    omega

/-- A reorg to an earlier count drops the batch and leaves its message. -/
theorem reorg_leaves_message : (∀ n (op : InboxOp), (reorgRun 0)[n]? = some op →
      op.Allowed (InboxOp.run (InboxTracker.restart .empty) ((reorgRun 0).take n))) ∧
    ¬ ∀ n, MessagesFollow (InboxOp.run (InboxTracker.restart .empty) ((reorgRun 0).take n)).db := by
  refine ⟨reorgRun_allowed 0, fun follows => ?_⟩
  have last := follows 3
  rw [show (reorgRun 0).take 3 = reorgRun 0 from rfl] at last
  obtain ⟨n, m, count, stored, messages⟩ := last
  have dropped : (InboxOp.run (InboxTracker.restart .empty) (reorgRun 0)).db.count
      .sequencerBatchCount = some 0 := by decide +kernel
  have left : (InboxOp.run (InboxTracker.restart .empty) (reorgRun 0)).db.count .messageCount =
      some 1 := by decide +kernel
  rw [dropped] at count
  cases count
  obtain rfl : m = .zero := (Option.some.inj stored).symm
  rw [left] at messages
  cases messages

end Samples

end NitroRs
