import NitroRs.Codecs
import NitroRs.Inbox.LedgerSteps

/-! Every run of the tracker's operations from a fresh database keeps its tables
in step: they always represent a ledger. -/
namespace NitroRs
open KeyValue Outcome

/-- The stored metadata of the batch before a sequence number, zero before batch 0. -/
def storedPrevious (db : Db) : Nat → Option BatchMetadata
  | 0 => some .zero
  | n + 1 => db.get .sequencerBatchMeta n

/-- Every batch up to the next one has a stored predecessor. -/
theorem storedPrevious_of_metas {db : Db} {batches : List BatchMetadata}
    (metas : ∀ i, db.get .sequencerBatchMeta i = batches[i]?) {pos : Nat}
    (inside : pos ≤ batches.length) : ∃ m, storedPrevious db pos = some m ∧
      ∀ f : BatchMetadata → Nat, f .zero = 0 → Ascending.before f batches pos = f m := by
  cases pos with
  | zero => exact ⟨.zero, rfl, fun f zero => zero.symm⟩
  | succ pos =>
    have here : batches[pos]? = some batches[pos] := List.getElem?_eq_getElem (by omega)
    refine ⟨batches[pos], (metas pos).trans here, fun f _ => ?_⟩
    simp only [Ascending.before, here, Option.map_some, Option.getD_some]

/-- What the L1 contract promises about a list of batches: delayed counts that
do not decrease, from the stored batch before the first one on. -/
def Steady (db : Db) : List SequencerInboxBatch → Prop
  | [] => True
  | first :: rest => ∀ m, storedPrevious db first.sequenceNumber = some m →
      Nondecreasing m.delayedMessageCount (first :: rest)

/-- A database without tracker tables and counters. -/
def Fresh (db : Db) : Prop := Agree .tracker Store.empty db

section Runs
variable [Externals]

/-- The tables are in step with a delayed count and a batch count. -/
structure StorageInvariant (db : Db) (n c : Nat) : Prop where
  delayedCount : db.count .delayedMessageCount = some n
  batchCount : db.count .sequencerBatchCount = some c
  entries : ∀ i, db.has .rlpDelayedMessage i ↔ i < n
  linked : ∀ i data, db.get .rlpDelayedMessage i = some data → ∃ acc bytes,
    InboxTracker.previousAccumulator db .zero i = .ok acc ∧ data = acc.val ++ bytes
  metas : ∀ i, db.has .sequencerBatchMeta i ↔ i < c
  index : ∀ k i, db.get .delayedSequenced k = some i ↔ i < c ∧ ∃ m previous,
    db.get .sequencerBatchMeta i = some m ∧ storedPrevious db i = some previous ∧
    m.delayedMessageCount = k ∧ previous.delayedMessageCount < k
  bounded : ∀ i m, db.get .sequencerBatchMeta i = some m → m.delayedMessageCount ≤ n

/-- One call of a tracker operation; a failing one steps to the state it leaves. -/
inductive TrackerStep (t : InboxTracker) : InboxTracker → Prop where
  | addDelayedMessages (inputs : List DelayedInput) :
      TrackerStep t (final (InboxTracker.addDelayedMessages inputs none t))
  | addSequencerBatches (batches : List SequencerInboxBatch) (steady : Steady t.db batches) :
      TrackerStep t (final (InboxTracker.addSequencerBatches batches t))
  | reorgDelayedTo (count : Nat)
      (inside : ∀ n, InboxTracker.getDelayedCount t.db = .ok n → count ≤ n) :
      TrackerStep t (final (InboxTracker.reorgDelayedTo count t))
  | reorgBatchesToDb (count : Nat) : TrackerStep t (final (InboxTracker.reorgBatchesToDb count t))

/-- The states of the runs that start with `initialize` on a fresh database. -/
inductive TrackerReachable : InboxTracker → Prop where
  | init {db : Db} : Fresh db → TrackerReachable (final (InboxTracker.initializeTracker (.new db)))
  | step {t t' : InboxTracker} : TrackerReachable t → TrackerStep t t' → TrackerReachable t'

variable {t t' : InboxTracker} {l : Ledger}

theorem RepresentsWith.storedPrevious (represents : Represents t l) {pos : Nat}
    (inside : pos ≤ l.batches.length) :
    ∃ m, NitroRs.storedPrevious t.db pos = some m ∧
      Ascending.before BatchMetadata.delayedMessageCount l.batches pos = m.delayedMessageCount := by
  obtain ⟨m, stored, before⟩ := storedPrevious_of_metas represents.metas inside
  exact ⟨m, stored, before _ rfl⟩

theorem initializeTracker_represents {db : Db} (fresh : Fresh db) :
    Represents (final (InboxTracker.initializeTracker (.new db))) .empty := by
  obtain ⟨db', initialized, same, counts⟩ := InboxTracker.initializeTracker_spec (.new db)
  rw [initialized]
  have zero (c : Counter) (owned : c.owner = .tracker) : db'.count c = some 0 := by
    rw [counts, InboxTracker.new, fresh.count c owned]
    rfl
  have empty (table : Table) (owned : table.owner = .tracker) (i : Nat) :
      db'.get table i = none := by
    rw [same, InboxTracker.new, fresh.get table owned]
    simp [Store.get, Store.empty]
  constructor
  · exact zero _ rfl
  · exact zero _ rfl
  · exact empty _ rfl
  · exact empty _ rfl
  · exact empty _ rfl
  · intro k i
    have missing := empty .delayedSequenced rfl k
    simp [missing, Ascending.Rises, Ledger.empty]
  · intro k m hit
    contradiction

/-- One step moves the tables from one ledger to another. -/
theorem TrackerStep.represents (represents : Represents t l) (step : TrackerStep t t') :
    ∃ l', Represents t' l' := by
  cases step with
  | addDelayedMessages inputs =>
    rcases addDelayedMessages_represents represents inputs with
      ⟨e, failed⟩ | ⟨_, same⟩ | ⟨pos, _, _, _, ds, t', _, added, _, _, represents', _⟩
    · exact ⟨l, by rwa [failed]⟩
    · exact ⟨l, by rwa [same]⟩
    · exact ⟨_, by rwa [added]⟩
  | addSequencerBatches batches steady =>
    cases batches with
    | nil => exact ⟨l, represents⟩
    | cons first rest =>
      have promised : ∀ m, l.previous first.sequenceNumber = some m →
          Nondecreasing m.delayedMessageCount (first :: rest) := by
        intro m found
        apply steady m
        rw [← found]
        cases first.sequenceNumber with
        | zero => rfl
        | succ n => exact represents.metas n
      rcases addSequencerBatches_represents represents promised with
        ⟨e, t', failed, _, represents'⟩ | ⟨m, metas, t', sorted, bounded, _, _, added, represents', _⟩
      · exact ⟨l, by rwa [failed]⟩
      · exact ⟨l.addBatches first.sequenceNumber metas sorted bounded, by rwa [added]⟩
  | reorgDelayedTo count inside =>
    have bound : count ≤ l.delayed.length := inside _ represents.getDelayedCount
    obtain ⟨t', reorged, represents', _⟩ := reorgDelayedTo_inside represents bound
    exact ⟨_, by rwa [reorged]⟩
  | reorgBatchesToDb count =>
    rcases reorgBatchesToDb_represents represents count with
      ⟨e, failed⟩ | ⟨n, t', reorged, _, represents', _⟩
    · exact ⟨l, by rwa [failed]⟩
    · exact ⟨l.reorgBatches count, by rwa [reorged]⟩

theorem TrackerReachable.represents (reached : TrackerReachable t) : ∃ l, Represents t l := by
  induction reached with
  | init fresh => exact ⟨_, initializeTracker_represents fresh⟩
  | step _ step ih =>
    obtain ⟨l, represents⟩ := ih
    exact step.represents represents

theorem RepresentsWith.storageInvariant (represents : Represents t l) :
    StorageInvariant t.db l.delayed.length l.batches.length := by
  refine ⟨represents.delayedCount, represents.batchCount, ?_, ?_, ?_, ?_, ?_⟩
  · intro i
    simp [Store.has, represents.entries, Ledger.entry]
  · intro i data stored
    rw [represents.entries, Ledger.entry] at stored
    obtain ⟨d, here, rfl⟩ := Option.map_eq_some_iff.mp stored
    have inside := (List.getElem?_eq_some_iff.mp here).1
    exact ⟨_, _, previousAccumulator_of_le represents inside.le, rfl⟩
  · intro i
    simp [Store.has, represents.metas]
  · intro k i
    rw [represents.index]
    constructor
    · rintro ⟨m, here, reached, above⟩
      have inside := (List.getElem?_eq_some_iff.mp here).1
      obtain ⟨previous, found, before⟩ := represents.storedPrevious inside.le
      exact ⟨inside, m, previous, (represents.metas i).trans here, found, reached, before ▸ above⟩
    · rintro ⟨inside, m, previous, here, found, reached, above⟩
      obtain ⟨previous', found', before⟩ := represents.storedPrevious inside.le
      obtain rfl := Option.some.inj (found.symm.trans found')
      exact ⟨m, (represents.metas i).symm.trans here, reached, before ▸ above⟩
  · intro i m stored
    rw [represents.metas] at stored
    exact l.bounded m (List.mem_of_getElem? stored)

/-- The tables of every reachable state are in step with the two counts. -/
theorem reachable_storage_invariant (reached : TrackerReachable t) :
    ∃ n c, InboxTracker.getDelayedCount t.db = .ok n ∧ InboxTracker.getBatchCount t = .ok c t ∧
      (∀ i, t.db.has .rlpDelayedMessage i ↔ i < n) ∧
      (∀ i data, t.db.get .rlpDelayedMessage i = some data → ∃ acc bytes,
        InboxTracker.previousAccumulator t.db .zero i = .ok acc ∧ data = acc.val ++ bytes) ∧
      (∀ i, t.db.has .sequencerBatchMeta i ↔ i < c) ∧
      (∀ k i, t.db.get .delayedSequenced k = some i ↔ i < c ∧ ∃ m previous,
        t.db.get .sequencerBatchMeta i = some m ∧ storedPrevious t.db i = some previous ∧
        m.delayedMessageCount = k ∧ previous.delayedMessageCount < k) ∧
      ∀ i m, t.db.get .sequencerBatchMeta i = some m → m.delayedMessageCount ≤ n := by
  obtain ⟨l, represents⟩ := reached.represents
  have invariant := represents.storageInvariant
  exact ⟨l.delayed.length, l.batches.length, represents.getDelayedCount, represents.getBatchCount,
    invariant.entries, invariant.linked, invariant.metas, invariant.index, invariant.bounded⟩

end Runs

section Samples
open Codecs

/-- The accumulator that a tracker stores for a delayed message. -/
def accAt (t : InboxTracker) (i : Nat) : B256 := ((InboxTracker.getDelayedAcc t.db i).toOption).getD .zero

def firstStored : InboxTracker := final (InboxTracker.addDelayedMessages [(0, .zero, List.replicate 113 0)] none
  (final (InboxTracker.initializeTracker (.new .empty))))

def bothStored : InboxTracker :=
  final (InboxTracker.addDelayedMessages [(1, accAt firstStored 0, List.replicate 113 1)] none firstStored)

/-- Two batches that read one delayed message each. -/
def readingBatches : List SequencerInboxBatch :=
  [{ batch 0 1 [] with afterDelayedAcc := accAt bothStored 0 },
    { batch 1 2 [[0, 7]] with afterDelayedAcc := accAt bothStored 1 }]

def bothRead : InboxTracker := final (InboxTracker.addSequencerBatches readingBatches bothStored)

/-- A reorg behind the first message drops the second batch. -/
def cutBack : InboxTracker := final (InboxTracker.reorgDelayedTo 1 bothRead)

theorem reorged_run_in_step :
    (bothRead.db.get .delayedSequenced 1 = some 0 ∧ bothRead.db.get .delayedSequenced 2 = some 1) ∧
      (∀ i, cutBack.db.has .rlpDelayedMessage i ↔ i < 1) ∧ (∀ i, cutBack.db.has .sequencerBatchMeta i ↔ i < 1) ∧
        ∀ k i, cutBack.db.get .delayedSequenced k = some i → i < 1 := by
  have steady : Steady bothStored.db readingBatches := by
    rintro m ⟨⟩
    exact (by decide : List.Pairwise (· ≤ ·) [0, 1, 2])
  have inside : ∀ n, InboxTracker.getDelayedCount bothRead.db = .ok n → 1 ≤ n := by
    intro n counted
    have two : InboxTracker.getDelayedCount bothRead.db = .ok 2 := by decide +kernel
    rw [← Except.ok.inj (two.symm.trans counted)]
    decide
  have added : TrackerReachable bothStored :=
    .step (.step (.init (.refl _ _)) (.addDelayedMessages _)) (.addDelayedMessages _)
  have read : TrackerReachable bothRead := .step added (.addSequencerBatches readingBatches steady)
  obtain ⟨n, c, counted, batches, entries, _, metas, index, _⟩ :=
    reachable_storage_invariant (.step read (.reorgDelayedTo 1 inside))
  change InboxTracker.getDelayedCount cutBack.db = .ok n at counted
  have one : InboxTracker.getDelayedCount cutBack.db = .ok 1 := by decide +kernel
  obtain rfl := Except.ok.inj (one.symm.trans counted)
  have first : value? (InboxTracker.getBatchCount cutBack) = some 1 := by decide +kernel
  obtain rfl := Option.some.inj (first.symm.trans (value_of_ok batches))
  exact ⟨⟨by decide +kernel, by decide +kernel⟩, entries, metas, fun k i found => ((index k i).mp found).1⟩

end Samples

end NitroRs
