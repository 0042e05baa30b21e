import NitroRs.Codecs
import NitroRs.Inbox.DelayedReorg
import NitroRs.Inbox.Lookup
import NitroRs.Reader.InboxReader

/-! The message counts at the safe and the finalized block: the end of the last batch that was
posted at or before it. -/
namespace NitroRs
open KeyValue Outcome

/-- The block numbers that the reader asks for. -/
structure L1HeaderReader where
  latestSafeBlockNr : Except Error Nat
  latestFinalizedBlockNr : Except Error Nat

namespace InboxReader

/-- The loop: down to a batch that was posted at or before the block. -/
def lastBatchUpTo (parentChainBlock : Nat) : Nat → EStateM Error InboxTracker Nat
  | 0 => return 0
  | batch + 1 => do
    let metadata ← InboxTracker.getBatchMetadata batch
    if metadata.parentChainBlock ≤ parentChainBlock then return metadata.messageCount
    else lastBatchUpTo parentChainBlock batch

def recentParentChainBlockToMsg (parentChainBlock : Nat) : EStateM Error InboxTracker Nat := do
  let batch ← InboxTracker.getBatchCount
  lastBatchUpTo parentChainBlock batch

def getSafeMsgCount (l1Reader : L1HeaderReader) : EStateM Error InboxTracker Nat := do
  let l1block ← lift l1Reader.latestSafeBlockNr
  recentParentChainBlockToMsg l1block

def getFinalizedMsgCount (l1Reader : L1HeaderReader) : EStateM Error InboxTracker Nat := do
  let l1block ← lift l1Reader.latestFinalizedBlockNr
  recentParentChainBlockToMsg l1block

end InboxReader

/-- A number that never decreases over the stored batches. -/
def NeverDecreases (f : BatchMetadata → Nat) (db : Db) : Prop :=
  ∀ i j m m', i < j → db.get .sequencerBatchMeta i = some m → db.get .sequencerBatchMeta j = some m' → f m ≤ f m'

/-- A count is the end of the last batch posted at or before a block, or 0 without one. -/
def EndOfLastUpTo (db : Db) (block count : Nat) : Prop :=
  (∃ i m, db.get .sequencerBatchMeta i = some m ∧ m.parentChainBlock ≤ block ∧ m.messageCount = count ∧
    ∀ j m', i < j → db.get .sequencerBatchMeta j = some m' → block < m'.parentChainBlock) ∨
  (count = 0 ∧ ∀ j m', db.get .sequencerBatchMeta j = some m' → block < m'.parentChainBlock)

/-- A count is read, and nothing is written. -/
def Counts (x : EStateM Error InboxTracker Nat) (t : InboxTracker) (count : Nat) : Prop :=
  ∃ t', x t = .ok count t' ∧ t'.db = t.db ∧ CacheCoherent t'

section
variable {batches : List BatchMetadata} {db : Db} {t : InboxTracker} {b : Nat}

/-- The end of the batches up to a block. -/
def endUpTo (batches : List BatchMetadata) (b : Nat) : Nat :=
  Ascending.before BatchMetadata.messageCount batches
    (Ascending.upTo BatchMetadata.parentChainBlock b batches).length

theorem NeverDecreases.sorted {f : BatchMetadata → Nat} (never : NeverDecreases f db)
    (metas : ∀ i, db.get .sequencerBatchMeta i = batches[i]?) : Ascending.Sorted f batches := by
  refine List.pairwise_iff_getElem.mpr fun i j first second order => ?_
  exact never i j _ _ order ((metas i).trans (List.getElem?_eq_getElem first))
    ((metas j).trans (List.getElem?_eq_getElem second))

theorem StorageInvariant.getBatchCount [Externals] {n c : Nat} (invariant : StorageInvariant t.db n c) :
    InboxTracker.getBatchCount t = .ok c t := by
  have kept : InboxTracker.repairCount t.db c = c := by
    apply InboxTracker.repairCount_self
    intro m length
    exact (invariant.metas m).mpr (by omega)
  simp only [InboxTracker.getBatchCount, bind_read, Db.readCount, invariant.batchCount, bind_lift_ok, kept,
    if_true]
  rfl

/-- The loop, from anywhere behind the batches up to the block. -/
theorem lastBatchUpTo_spec (blocks : Ascending.Sorted BatchMetadata.parentChainBlock batches)
    (metas : ∀ i, t.db.get .sequencerBatchMeta i = batches[i]?) (coherent : CacheCoherent t) {k : Nat}
    (behind : (Ascending.upTo BatchMetadata.parentChainBlock b batches).length ≤ k) (inside : k ≤ batches.length) :
    Counts (InboxReader.lastBatchUpTo b k) t (endUpTo batches b) := by
  induction k generalizing t with
  | zero =>
    have none := Nat.le_zero.mp behind
    exact ⟨t, by rw [endUpTo, none]; rfl, rfl, coherent⟩
  | succ k ih =>
    have here : batches[k]? = some batches[k] := List.getElem?_eq_getElem (by omega)
    rcases coherent.getBatchMetadata k with ⟨m, t', stored, read, same, coherent'⟩ | ⟨missing, _⟩
    swap
    · cases (metas k).symm.trans missing |>.symm.trans here
    cases here.symm.trans ((metas k).symm.trans stored)
    rw [Counts, InboxReader.lastBatchUpTo, bind_ok read]
    have low : k < (Ascending.upTo BatchMetadata.parentChainBlock b batches).length ↔
        ∃ m, batches[k]? = some m ∧ m.parentChainBlock ≤ b := Ascending.lt_length_upTo blocks
    split
    · rename_i early
      have last : (Ascending.upTo BatchMetadata.parentChainBlock b batches).length = k + 1 :=
        le_antisymm behind (low.mpr ⟨_, here, early⟩)
      refine ⟨t', ?_, same, coherent'⟩
      rw [endUpTo, last, Ascending.before, here]
      rfl
    · rename_i late
      have further : (Ascending.upTo BatchMetadata.parentChainBlock b batches).length ≤ k := by
        by_contra more
        obtain ⟨m, there, early⟩ := low.mp (not_le.mp more)
        cases here.symm.trans there
        exact late early
      obtain ⟨t'', found, db, coherent''⟩ := ih (by rw [same]; exact metas) coherent' further (by omega)
      exact ⟨t'', found, db.trans same, coherent''⟩

theorem endUpTo_mono (counts : Ascending.Sorted BatchMetadata.messageCount batches)
    (blocks : Ascending.Sorted BatchMetadata.parentChainBlock batches) : Monotone (endUpTo batches) := by
  intro b b' order
  refine Ascending.before_mono counts ?_ (List.takeWhile_sublist _).length_le
  by_contra less
  obtain ⟨m, here, low⟩ := (Ascending.lt_length_upTo blocks).mp (not_le.mp less)
  exact lt_irrefl _ ((Ascending.lt_length_upTo blocks).mpr ⟨m, here, low.trans order⟩)

theorem endUpTo_last (blocks : Ascending.Sorted BatchMetadata.parentChainBlock batches)
    (metas : ∀ i, db.get .sequencerBatchMeta i = batches[i]?) (b : Nat) :
    EndOfLastUpTo db b (endUpTo batches b) := by
  have later {i : Nat} {m : BatchMetadata}
      (beyond : (Ascending.upTo BatchMetadata.parentChainBlock b batches).length ≤ i)
      (stored : db.get .sequencerBatchMeta i = some m) : b < m.parentChainBlock := by
    by_contra low
    exact absurd ((Ascending.lt_length_upTo blocks).mpr ⟨m, (metas i).symm.trans stored, not_lt.mp low⟩)
      (not_lt.mpr beyond)
  unfold endUpTo
  cases length : (Ascending.upTo BatchMetadata.parentChainBlock b batches).length with
  | zero => exact .inr ⟨rfl, fun j m stored => later (by omega) stored⟩
  | succ i =>
    have inside : i < (Ascending.upTo BatchMetadata.parentChainBlock b batches).length := by omega
    obtain ⟨m, here, low⟩ := (Ascending.lt_length_upTo blocks).mp inside
    refine .inl ⟨i, m, (metas i).trans here, low, ?_, fun j m' order stored => later (by omega) stored⟩
    rw [Ascending.before, here]
    rfl

/-- A message is in front of the count exactly when its batch was posted up to the block. -/
theorem lt_endUpTo_iff (counts : Ascending.Sorted BatchMetadata.messageCount batches)
    (blocks : Ascending.Sorted BatchMetadata.parentChainBlock batches)
    (metas : ∀ i, db.get .sequencerBatchMeta i = batches[i]?) {pos i : Nat} {m : BatchMetadata}
    (member : InBatch db pos i) (stored : db.get .sequencerBatchMeta i = some m) :
    pos < endUpTo batches b ↔ m.parentChainBlock ≤ b := by
  obtain ⟨previous, m', front, stored', above, below⟩ := member
  cases stored.symm.trans stored'
  have here := (metas i).symm.trans stored
  have inside := (List.getElem?_eq_some_iff.mp here).1
  have reach := (List.takeWhile_sublist (fun m : BatchMetadata => decide (m.parentChainBlock ≤ b))
    (l := batches)).length_le
  constructor
  · intro early
    by_contra late
    have short : (Ascending.upTo BatchMetadata.parentChainBlock b batches).length ≤ i := by
      by_contra more
      obtain ⟨m', there, low⟩ := (Ascending.lt_length_upTo blocks).mp (not_le.mp more)
      cases here.symm.trans there
      exact late low
    obtain ⟨previous', front', before⟩ := storedPrevious_of_metas metas inside.le
    cases front.symm.trans front'
    have order := Ascending.before_mono counts short inside.le
    rw [before BatchMetadata.messageCount rfl] at order
    exact absurd (early.trans_le order) (not_lt.mpr above)
  · intro low
    have further := (Ascending.lt_length_upTo blocks).mpr ⟨m, here, low⟩
    exact below.trans_le (Ascending.le_before counts here further reach)

/-- A message in front of a batch's end is in that batch or in an earlier one. -/
theorem exists_inBatch (metas : ∀ i, db.get .sequencerBatchMeta i = batches[i]?) {pos k : Nat}
    (inside : k ≤ batches.length) (below : pos < Ascending.before BatchMetadata.messageCount batches k) :
    ∃ i, InBatch db pos i := by
  induction k with
  | zero => exact absurd below (Nat.not_lt_zero pos)
  | succ k ih =>
    by_cases earlier : pos < Ascending.before BatchMetadata.messageCount batches k
    · exact ih (by omega) earlier
    · have here : batches[k]? = some batches[k] := List.getElem?_eq_getElem (by omega)
      obtain ⟨previous, front, before⟩ := storedPrevious_of_metas metas (show k ≤ batches.length by omega)
      rw [Ascending.before, here] at below
      rw [before BatchMetadata.messageCount rfl, not_lt] at earlier
      exact ⟨k, previous, _, front, (metas k).trans here, earlier, below⟩

end

section
variable [Externals] {t : InboxTracker} {n c : Nat}

/-- The count at a block never decreases with the block. It ends with the last batch posted up
to there, so it is in front of the messages of later batches, and behind those of the others. -/
theorem message_count_sound (invariant : StorageInvariant t.db n c) (coherent : CacheCoherent t)
    (blocks : NeverDecreases BatchMetadata.parentChainBlock t.db)
    (counts : NeverDecreases BatchMetadata.messageCount t.db) :
    ∃ count : Nat → Nat, Monotone count ∧ ∀ b,
      Counts (InboxReader.recentParentChainBlockToMsg b) t (count b) ∧
      (∀ l1Reader : L1HeaderReader, (l1Reader.latestSafeBlockNr = .ok b →
        Counts (InboxReader.getSafeMsgCount l1Reader) t (count b)) ∧
        (l1Reader.latestFinalizedBlockNr = .ok b → Counts (InboxReader.getFinalizedMsgCount l1Reader) t (count b))) ∧
      EndOfLastUpTo t.db b (count b) ∧
      (∀ pos < count b, ∃ i, InBatch t.db pos i) ∧
      ∀ pos i m, InBatch t.db pos i → t.db.get .sequencerBatchMeta i = some m →
        (pos < count b ↔ m.parentChainBlock ≤ b) := by
  obtain ⟨batches, length, metas⟩ := invariant.exists_batches
  have blocks := blocks.sorted metas
  have counts := counts.sorted metas
  refine ⟨endUpTo batches, endUpTo_mono counts blocks, fun b => ?_⟩
  have reach : (Ascending.upTo BatchMetadata.parentChainBlock b batches).length ≤ batches.length :=
    (List.takeWhile_sublist _).length_le
  have recent : Counts (InboxReader.recentParentChainBlockToMsg b) t (endUpTo batches b) := by
    rw [Counts, InboxReader.recentParentChainBlockToMsg, bind_ok invariant.getBatchCount, ← length]
    exact lastBatchUpTo_spec blocks metas coherent reach le_rfl
  refine ⟨recent, fun l1Reader => ⟨fun safe => ?_, fun finalized => ?_⟩, endUpTo_last blocks metas b,
    fun pos below => exists_inBatch metas reach below,
    fun pos i m member stored => lt_endUpTo_iff counts blocks metas member stored⟩
  · rwa [InboxReader.getSafeMsgCount, safe]
  · rwa [InboxReader.getFinalizedMsgCount, finalized]

end

section Samples
open Codecs

/-- Batches of one, one and no message, posted in blocks 5, 5 and 9. -/
def postedBatches : InboxTracker := final (InboxTracker.addSequencerBatches
  [{ batch 0 0 [[0, 7]] with parentChainBlockNumber := 5 },
    { batch 1 0 [[0, 8]] with parentChainBlockNumber := 5 },
    { batch 2 0 [] with parentChainBlockNumber := 9 }] initialTracker)

theorem postedBatches_reachable : TrackerReachable postedBatches := by
  refine .step (.init (.refl _ _)) (.addSequencerBatches _ ?_)
  rintro m ⟨⟩
  exact (by decide : List.Pairwise (· ≤ ·) [0, 0, 0, 0])

/-- Two messages are safe at block 7. -/
theorem postedBatches_safe : Counts (InboxReader.recentParentChainBlockToMsg 7) postedBatches 2 := by
  obtain ⟨l, represents⟩ := postedBatches_reachable.represents
  have stored : (postedBatches.db.count .sequencerBatchCount, (List.range 3).map fun i =>
      (postedBatches.db.get .sequencerBatchMeta i).map fun m => (m.messageCount, m.parentChainBlock)) =
        (some 3, [some (1, 5), some (2, 5), some (2, 9)]) := by decide +kernel
  simp only [List.range_succ, List.range_zero, List.nil_append, List.cons_append, List.map_cons, List.map_nil,
    Prod.mk.injEq, List.cons.injEq, and_true, Option.map_eq_some_iff] at stored
  obtain ⟨length, ⟨m₀, first, count₀, block₀⟩, ⟨m₁, second, count₁, block₁⟩, m₂, third, count₂, block₂⟩ := stored
  have never (f : BatchMetadata → Nat) (low : f m₀ ≤ f m₁) (high : f m₁ ≤ f m₂) :
      NeverDecreases f postedBatches.db := by
    intro i j m m' order here there
    rw [represents.metas] at here there
    have short := (List.getElem?_eq_some_iff.mp there).1
    rw [Option.some.inj (represents.batchCount.symm.trans length)] at short
    rw [← represents.metas] at here there
    have pair : (i = 0 ∧ j = 1) ∨ (i = 0 ∧ j = 2) ∨ (i = 1 ∧ j = 2) := by omega
    rcases pair with ⟨rfl, rfl⟩ | ⟨rfl, rfl⟩ | ⟨rfl, rfl⟩
    · cases first.symm.trans here
      cases second.symm.trans there
      exact low
    · cases first.symm.trans here
      cases third.symm.trans there
      exact low.trans high
    · cases second.symm.trans here
      cases third.symm.trans there
      exact high
  obtain ⟨count, _, all⟩ := message_count_sound represents.storageInvariant (fun k m hit => represents.cache k m hit)
    (never _ (by omega) (by omega)) (never _ (by omega) (by omega))
  obtain ⟨read, _, last, _⟩ := all 7
  suffices two : count 7 = 2 by rwa [two] at read
  rcases last with ⟨i, m, here, low, ends, later⟩ | ⟨_, later⟩
  · match i with
    | 0 => exact absurd (later 1 m₁ (by decide) second) (by omega)
    | 1 => cases second.symm.trans here; omega
    | 2 => cases third.symm.trans here; omega
    | i + 3 =>
      rw [represents.metas] at here
      have short := (List.getElem?_eq_some_iff.mp here).1
      rw [Option.some.inj (represents.batchCount.symm.trans length)] at short
      omega
  · exact absurd (later 0 m₀ first) (by omega)

end Samples
end NitroRs
