import NitroRs.Inbox.Windows
import NitroRs.Streamer.Density

/-! Runs of the tracker and the streamer on one database, by any of their callers: the
tables stay in step, and no message is stored past the message count. -/
namespace NitroRs
open KeyValue Outcome TransactionStreamer

namespace TransactionStreamer

theorem addMessagesAndReorg_frame (first : Nat) (ms : List MessageWithMetadataAndBlockInfo)
    (track : Option Nat) (db : Db) :
    Agree .tracker db (final (addMessagesAndReorg first ms track db)) := by
  rcases addMessagesAndReorg_spec first ms track db with ⟨_, refused⟩ | ⟨db', _, done, _, _, frame⟩
  · rw [refused, final_error]
  · rwa [done]

/-- An append leaves the tracker's side of the database alone. -/
theorem addMessagesAndEndBatchImpl_frame (first : Nat) (confirmed : Bool)
    (ms : List MessageWithMetadataAndBlockInfo) (track : Option Nat) (db : Db) :
    Agree .tracker db (final (addMessagesAndEndBatchImpl first confirmed ms track db)) := by
  unfold addMessagesAndEndBatchImpl
  rw [bind_read]
  split
  · exact .refl _ _
  · rcases countDuplicateMessages db first ms with ⟨dups, reorg⟩
    dsimp only
    split
    · exact .refl _ _
    · cases checkDelayedReads (first + dups) (lastDelayedRead db first dups ms) (ms.drop dups) with
      | error e => exact .refl _ _
      | ok _ =>
        rw [bind_lift_ok]
        split
        · exact addMessagesAndReorg_frame _ _ _ _
        · split
          · exact .refl _ _
          · exact .write (writeMessages_owner _ _ _)

end TransactionStreamer

namespace StreamerOp

theorem execute_frame (db : Db) (op : StreamerOp) : Agree .tracker db (execute db op) := by
  cases op with
  | add first ms track => exact addMessagesAndEndBatchImpl_frame first false ms track db
  | addConfirmed first ms track => exact addMessagesAndEndBatchImpl_frame first true ms track db
  | addAndReorg first ms track => exact addMessagesAndReorg_frame first ms track db
  | reorgAt first => exact addMessagesAndReorg_frame first [] none db

theorem execute_tidy {db : Db} (tidy : NothingPastCount db) (op : StreamerOp) :
    NothingPastCount (execute db op) := by
  cases op with
  | add first ms track => exact addMessagesAndEndBatchImpl_tidy tidy first false ms track
  | addConfirmed first ms track => exact addMessagesAndEndBatchImpl_tidy tidy first true ms track
  | addAndReorg first ms track => exact addMessagesAndReorg_tidy tidy first ms track
  | reorgAt first => exact addMessagesAndReorg_tidy tidy first [] none

end StreamerOp

section
variable [Externals] {t t' : InboxTracker} {l : Ledger} {n : Nat}

/-! Reads keep what the tables represent, and the cache with it. -/

theorem getBatchMessageCount_keeps (i : Nat) :
    Keeps (RepresentsWith n · l) (InboxTracker.getBatchMessageCount i) := by
  refine .bind (fun t represents => ?_) fun m => .of_final fun t => rfl
  rcases represents.getBatchMetadata i with ⟨m, t', _, found, _, represents'⟩ | ⟨_, missing⟩
  · rwa [found]
  · rwa [missing]

theorem searchBatches_keeps (pos fuel low high : Nat) :
    Keeps (RepresentsWith n · l) (InboxTracker.searchBatches pos fuel low high) := by
  induction fuel generalizing low high with
  | zero => exact .of_final fun _ => rfl
  | succ fuel ih =>
    unfold InboxTracker.searchBatches
    refine .bind (getBatchMessageCount_keeps _) fun count => ?_
    split
    · split
      · exact .of_final fun _ => rfl
      · exact ih _ _
    · split
      · exact .of_final fun _ => rfl
      · split
        · exact .of_final fun _ => rfl
        · exact ih _ _

theorem getBatchCount_keeps : Keeps (RepresentsWith n · l) InboxTracker.getBatchCount := by
  intro t represents
  rwa [represents.getBatchCount]

theorem findInboxBatchContainingMessage_keeps (pos : Nat) :
    Keeps (RepresentsWith n · l) (InboxTracker.findInboxBatchContainingMessage pos) := by
  refine .bind getBatchCount_keeps fun count => ?_
  dsimp only
  split
  · exact .of_final fun _ => rfl
  · refine .bind (getBatchMessageCount_keeps _) fun last => ?_
    split
    · exact .of_final fun _ => rfl
    · exact searchBatches_keeps _ _ _ _

theorem isAligned_keeps (firstSeq c : Nat) :
    Keeps (RepresentsWith n · l) (InboxTracker.isAligned firstSeq c) := by
  refine .bind getBatchCount_keeps.attempt fun count => ?_
  split
  · exact .of_final fun _ => rfl
  · refine .bind (findInboxBatchContainingMessage_keeps c).attempt fun found => ?_
    split
    · exact .of_final fun _ => rfl
    · exact .of_final fun _ => rfl

theorem alignWindow_keeps (firstSeq : Nat) (m : BatchMetadata) (c : Nat) :
    Keeps (RepresentsWith n · l) (InboxTracker.alignWindow firstSeq m c) := by
  unfold InboxTracker.alignWindow
  split
  · exact .of_final fun _ => rfl
  · exact .bind (isAligned_keeps firstSeq c) fun aligned => .of_final fun _ => rfl

/-- The alignment of a tracker whose tables are in step. -/
theorem RepresentsWith.alignWindow (represents : RepresentsWith n t l) (firstSeq : Nat) (m : BatchMetadata)
    (c : Nat) : ∃ window t', InboxTracker.alignWindow firstSeq m c t = .ok window t' ∧
      t'.db = t.db ∧ RepresentsWith n t' l := by
  obtain ⟨window, t', aligned, db, _⟩ := InboxTracker.alignWindow_spec firstSeq m c t
  have kept := alignWindow_keeps (n := n) (l := l) firstSeq m c t represents
  rw [aligned] at kept
  rw [represents.repaired, ite_self] at db
  exact ⟨window, t', aligned, db, kept⟩

end

section Runs
variable [Externals]

/-- One call on the tracker, on its streamer, or on both; a failing one steps to the
state it leaves. -/
inductive CombinedStep (t : InboxTracker) : InboxTracker → Prop where
  | tracker {t' : InboxTracker} (step : TrackerStep t t') : CombinedStep t t'
  | streamer (op : StreamerOp) : CombinedStep t { t with db := op.execute t.db }
  | ingest (batches : List SequencerInboxBatch) (steady : Steady t.db batches) :
      CombinedStep t (final (InboxTracker.addSequencerBatchesAndStream batches t))

/-- The states of the runs that start with `initialize` on a fresh database. -/
inductive CombinedReachable : InboxTracker → Prop where
  | init {db : Db} : Fresh db → NothingPastCount db →
      CombinedReachable (final (InboxTracker.initializeTracker (.new db)))
  | step {t t' : InboxTracker} : CombinedReachable t → CombinedStep t t' → CombinedReachable t'

/-- The tables are in step, and no message is past the message count. -/
def Coherent (t : InboxTracker) : Prop := (∃ l, Represents t l) ∧ NothingPastCount t.db

variable {t t' : InboxTracker} {l : Ledger} {n : Nat}

theorem RepresentsWith.storedPrevious_eq (represents : RepresentsWith n t l) (i : Nat) :
    NitroRs.storedPrevious t.db i = l.previous i := by
  cases i with
  | zero => rfl
  | succ i => exact represents.metas i

theorem Steady.of_represents (represents : RepresentsWith n t l) {first : SequencerInboxBatch}
    {rest : List SequencerInboxBatch} (steady : Steady t.db (first :: rest)) (m : BatchMetadata)
    (found : l.previous first.sequenceNumber = some m) :
    Nondecreasing m.delayedMessageCount (first :: rest) :=
  steady m ((represents.storedPrevious_eq _).trans found)

/-- What a tracker operation leaves of the message store. -/
theorem TrackerStep.frame (represents : Represents t l) (step : TrackerStep t t') :
    Agree .streamer t.db t'.db := by
  cases step with
  | addDelayedMessages inputs =>
    rcases addDelayedMessages_represents represents inputs with
      ⟨e, failed⟩ | ⟨_, same⟩ | ⟨_, _, _, _, _, t', _, added, _, _, _, frame⟩
    · rw [failed, final_error]
    · rw [same, final_ok]
    · rwa [added]
  | addSequencerBatches batches steady =>
    cases batches with
    | nil => exact .refl _ _
    | cons first rest =>
      rcases addSequencerBatches_represents represents (steady.of_represents represents) with
        ⟨e, t', failed, db, _⟩ | ⟨_, _, t', _, _, _, _, added, _, frame⟩
      · rw [failed, final_error, db]
      · rwa [added]
  | reorgDelayedTo count inside =>
    have bound : count ≤ l.delayed.length := inside _ represents.getDelayedCount
    obtain ⟨t', reorged, _, frame⟩ := reorgDelayedTo_inside represents bound
    rwa [reorged]
  | reorgBatchesToDb count =>
    rcases reorgBatchesToDb_represents represents count with
      ⟨e, failed⟩ | ⟨_, t', reorged, _, _, frame⟩
    · rw [failed, final_error]
    · rwa [reorged]

/-- The ledger behind an ingestion: the one in front of it, or with the batches in it. -/
def RecordedIn (l l' : Ledger) (batches : List SequencerInboxBatch) : Prop :=
  l' = l ∨ ∃ first rest m metas, batches = first :: rest ∧ l.previous first.sequenceNumber = some m ∧
    InboxTracker.describeBatches m batches = .ok (numberFrom first.sequenceNumber metas) ∧
    l'.delayed = l.delayed ∧ l'.batches = l.batches.take first.sequenceNumber ++ metas

/-- The delayed side stays. -/
theorem RecordedIn.represents {l' : Ledger} {batches : List SequencerInboxBatch} (recorded : RecordedIn l l' batches)
    (represents : RepresentsWith l.delayed.length t' l') : Represents t' l' := by
  rcases recorded with rfl | ⟨_, _, _, _, _, _, _, delayed, _⟩
  · exact represents
  · rwa [Represents, delayed]

/-- Recording batches keeps the message store as it is. -/
theorem addSequencerBatches_recordedIn (represents : RepresentsWith n t l) (tidy : NothingPastCount t.db)
    {first : SequencerInboxBatch} {rest : List SequencerInboxBatch}
    (promised : ∀ m, l.previous first.sequenceNumber = some m →
      Nondecreasing m.delayedMessageCount (first :: rest)) :
    ∃ l', RepresentsWith n (final (InboxTracker.addSequencerBatches (first :: rest) t)) l' ∧
      NothingPastCount (final (InboxTracker.addSequencerBatches (first :: rest) t)).db ∧
      RecordedIn l l' (first :: rest) := by
  rcases addSequencerBatches_represents represents promised with
    ⟨e, t', failed, db, represents'⟩ |
    ⟨m, metas, t', _, _, found, described, added, represents', frame⟩
  · rw [failed]
    exact ⟨l, represents', by rwa [final_error, db], .inl rfl⟩
  · rw [added]
    exact ⟨_, represents', tidy.of_agree frame, .inr ⟨first, rest, m, metas, rfl, found, described, rfl, rfl⟩⟩

theorem ingestWindow_recordedIn (represents : RepresentsWith n t l) (tidy : NothingPastCount t.db)
    {first : SequencerInboxBatch} {rest : List SequencerInboxBatch}
    (promised : ∀ m, l.previous first.sequenceNumber = some m →
      Nondecreasing m.delayedMessageCount (first :: rest)) (c read : Nat) :
    ∃ l', RepresentsWith n (final (InboxTracker.ingestWindow (first :: rest) c read t)) l' ∧
      NothingPastCount (final (InboxTracker.ingestWindow (first :: rest) c read t)).db ∧
      RecordedIn l l' (first :: rest) := by
  rw [InboxTracker.ingestWindow, bind_read]
  cases InboxTracker.streamBatches t.db (first :: rest) read with
  | error e => exact ⟨l, represents, tidy, .inl rfl⟩
  | ok out =>
    rw [bind_lift_ok]
    split
    · exact ⟨l, represents, tidy, .inl rfl⟩
    · cases getMessageCount t.db with
      | error e => exact ⟨l, represents, tidy, .inl rfl⟩
      | ok c' =>
        rw [bind_lift_ok]
        split
        · exact ⟨l, represents, tidy, .inl rfl⟩
        · have represents' := represents.of_agree ((StreamerOp.addConfirmed c out none).execute_frame t.db)
          have tidy' := (StreamerOp.addConfirmed c out none).execute_tidy tidy
          simp only [StreamerOp.execute, StreamerOp.call] at represents' tidy'
          cases appended : addConfirmedMessagesAndEndBatch c out none t.db with
          | error e db =>
            rw [bind_error (InboxTracker.onStreamer_error appended)]
            rw [appended] at represents' tidy'
            exact ⟨l, represents', tidy', .inl rfl⟩
          | ok _ db =>
            rw [bind_ok (InboxTracker.onStreamer_ok appended)]
            rw [appended] at represents' tidy'
            exact addSequencerBatches_recordedIn represents' tidy' promised

/-- An ingestion reads, appends to the message store and records batches. -/
theorem ingest_recordedIn (represents : RepresentsWith n t l) (tidy : NothingPastCount t.db)
    (batches : List SequencerInboxBatch) (steady : Steady t.db batches) :
    ∃ l', RepresentsWith n (final (InboxTracker.addSequencerBatchesAndStream batches t)) l' ∧
      NothingPastCount (final (InboxTracker.addSequencerBatchesAndStream batches t)).db ∧
      RecordedIn l l' batches := by
  cases batches with
  | nil => exact ⟨l, represents, tidy, .inl rfl⟩
  | cons first rest =>
    have promised := steady.of_represents represents
    rcases previousMetadata_represents represents first.sequenceNumber with
      ⟨m, t₁, _, read, db₁, represents₁⟩ | ⟨_, e, failed⟩
    · rw [InboxTracker.addSequencerBatchesAndStream, bind_ok read, bind_read]
      cases getMessageCount t₁.db with
      | error e => exact ⟨l, represents₁, by rwa [← db₁] at tidy, .inl rfl⟩
      | ok c =>
        obtain ⟨window, t₂, aligned, db₂, represents₂⟩ :=
          represents₁.alignWindow first.sequenceNumber m c
        have tidy₂ : NothingPastCount t₂.db := by rwa [db₂, db₁]
        rw [bind_lift_ok, bind_ok aligned]
        cases window with
        | none => exact ⟨l, represents₂, tidy₂, .inl rfl⟩
        | some place => exact ingestWindow_recordedIn represents₂ tidy₂ promised place.1 place.2
    · rw [InboxTracker.addSequencerBatchesAndStream, bind_error failed]
      exact ⟨l, represents, tidy, .inl rfl⟩

theorem CombinedStep.coherent (coherent : Coherent t) (step : CombinedStep t t') : Coherent t' := by
  obtain ⟨⟨l, represents⟩, tidy⟩ := coherent
  cases step with
  | tracker step => exact ⟨step.represents represents, tidy.of_agree (step.frame represents)⟩
  | streamer op => exact ⟨⟨l, represents.of_agree (op.execute_frame t.db)⟩, op.execute_tidy tidy⟩
  | ingest batches steady =>
    obtain ⟨l', represents', tidy', recorded⟩ := ingest_recordedIn represents tidy batches steady
    exact ⟨⟨l', recorded.represents represents'⟩, tidy'⟩

theorem CombinedReachable.coherent (reached : CombinedReachable t) : Coherent t := by
  induction reached with
  | init fresh tidy =>
    refine ⟨⟨_, initializeTracker_represents fresh⟩, fun i past => ?_⟩
    obtain ⟨tables, counters, _⟩ := restart_spec _
    rw [InboxTracker.restart] at tables counters
    rw [tables]
    apply tidy i
    rwa [messageCountOrZero, counters, Option.getD_some] at past
  | step _ step ih => exact step.coherent ih

/-- In a reachable state whose message count is the one of the last batch, nothing else
is asked of the state. -/
theorem CombinedReachable.combined (reached : CombinedReachable t) :
    ∃ l, Represents t l ∧ (t.db.count .messageCount = some l.last.messageCount → Combined t l) := by
  obtain ⟨⟨l, represents⟩, tidy⟩ := reached.coherent
  exact ⟨l, represents, fun level => ⟨represents, tidy, level⟩⟩

end Runs

end NitroRs
