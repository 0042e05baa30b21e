import NitroRs.Lib.Longest
import NitroRs.Lib.StableSort
import NitroRs.Reader.Iteration
import NitroRs.Reader.Finality

/-! The contiguity filter: of the fetched batches it leaves the longest run of sequence numbers
from the expected one on. Its counter stays at the last number of 64 bits. -/
namespace NitroRs
open KeyValue Outcome

namespace InboxReader

/-- What is handed to `add_sequencer_batches_and_stream`. -/
def filteredBatches (good : List SequencerInboxBatch) : EStateM Error InboxTracker (List SequencerInboxBatch) := do
  let expected ← expectedBatch
  return filterFrom expected (sortBatches good)

end InboxReader

section Run
variable {batches later good kept : List SequencerInboxBatch} {b : SequencerInboxBatch} {start expected i m : Nat}

/-- There is a batch `k` numbers after the start. -/
def Occurs (batches : List SequencerInboxBatch) (start k : Nat) : Prop :=
  ∃ b ∈ batches, b.sequenceNumber = start + k

/-- What is kept of a sequence number: its first batch, and all of them at the last number. -/
def keptOf (batches : List SequencerInboxBatch) (i : Nat) : List SequencerInboxBatch :=
  if i = 2 ^ 64 - 1 then batches.filter (·.sequenceNumber = i)
  else (batches.find? (·.sequenceNumber = i)).toList

theorem occurs_cons {k : Nat} :
    Occurs (b :: later) start k ↔ b.sequenceNumber = start + k ∨ Occurs later start k := by
  simp only [Occurs, List.mem_cons, exists_eq_or_imp]

theorem keptOf_cons_of_ne (apart : b.sequenceNumber ≠ i) : keptOf (b :: later) i = keptOf later i := by
  simp only [keptOf, List.filter_cons, List.find?_cons, apart, decide_false, Bool.false_eq_true, if_false]

theorem flatMap_keptOf_cons (before : b.sequenceNumber < start) :
    (List.range' start m).flatMap (keptOf (b :: later)) = (List.range' start m).flatMap (keptOf later) := by
  apply List.flatMap_congr
  intro i member
  have above := (List.mem_range'_1.mp member).1
  exact keptOf_cons_of_ne (by omega)

/-- A run from the last number on is that number, or nothing. -/
theorem flatMap_keptOf_last (numbered : Numbered batches) (longest : Longest (Occurs batches (2 ^ 64 - 1)) m) :
    (List.range' (2 ^ 64 - 1) m).flatMap (keptOf batches) = batches.filter (·.sequenceNumber = 2 ^ 64 - 1) := by
  obtain ⟨occurs, stops⟩ := Longest.iff_fails.mp longest
  match m with
  | 0 =>
    symm
    rw [List.range'_zero, List.flatMap_nil, List.filter_eq_nil_iff]
    intro b member last
    exact stops ⟨b, member, of_decide_eq_true last⟩
  | 1 => rw [List.range'_one, List.flatMap_singleton, keptOf, if_pos rfl]
  | m + 2 =>
    obtain ⟨b, member, past⟩ := occurs 1 (by omega)
    have word := numbered b member
    omega

theorem keptOf_cons_first (more : b.sequenceNumber ≠ 2 ^ 64 - 1) : keptOf (b :: later) b.sequenceNumber = [b] := by
  simp only [keptOf, if_neg more, List.find?_cons, decide_true, Option.toList_some]

theorem keptOf_cons_last (last : b.sequenceNumber = 2 ^ 64 - 1) :
    keptOf (b :: later) b.sequenceNumber = b :: later.filter (·.sequenceNumber = 2 ^ 64 - 1) := by
  simp only [keptOf, last, if_true, List.filter_cons, decide_true]

/-- The longest run from a number on, with the batches that are kept of each of its numbers. -/
def IsRun (batches : List SequencerInboxBatch) (start : Nat) (kept : List SequencerInboxBatch) : Prop :=
  ∃ m, Longest (Occurs batches start) m ∧ kept = (List.range' start m).flatMap (keptOf batches)

theorem IsRun.older (run : IsRun later start kept) (before : b.sequenceNumber < start) :
    IsRun (b :: later) start kept := by
  obtain ⟨m, longest, rfl⟩ := run
  refine ⟨m, (Longest.congr fun k => ?_).mpr longest, (flatMap_keptOf_cons before).symm⟩
  rw [occurs_cons, or_iff_right (by omega)]

theorem IsRun.next (run : IsRun later (b.sequenceNumber + 1) kept) (more : b.sequenceNumber ≠ 2 ^ 64 - 1) :
    IsRun (b :: later) b.sequenceNumber (b :: kept) := by
  obtain ⟨m, longest, rfl⟩ := run
  refine ⟨m + 1, .succ ⟨b, List.mem_cons_self, rfl⟩ ((Longest.congr fun k => ?_).mpr longest), ?_⟩
  · rw [occurs_cons, or_iff_right (by omega), Occurs, Occurs, Nat.add_assoc, Nat.add_comm 1]
  · rw [List.range'_succ, List.flatMap_cons, flatMap_keptOf_cons (Nat.lt_succ_self _), keptOf_cons_first more,
      List.singleton_append]

/-- At the last number the counter stays, and the run with it. -/
theorem IsRun.last (run : IsRun later (2 ^ 64 - 1) kept) (last : b.sequenceNumber = 2 ^ 64 - 1)
    (numbered : Numbered later) : IsRun (b :: later) b.sequenceNumber (b :: kept) := by
  obtain ⟨m, longest, rfl⟩ := run
  refine ⟨1, .succ ⟨b, List.mem_cons_self, rfl⟩ (.zero fun past => ?_), ?_⟩
  · rcases occurs_cons.mp past with here | ⟨b', member, past⟩
    · omega
    · have word := numbered b' member
      omega
  · rw [flatMap_keptOf_last numbered longest, List.range'_one, List.flatMap_singleton, keptOf_cons_last last]

theorem isRun_gap (after : ∀ b ∈ batches, start < b.sequenceNumber) : IsRun batches start [] := by
  refine ⟨0, .zero fun ⟨b, member, same⟩ => ?_, rfl⟩
  have order := after b member
  omega

/-- The loop on batches in the order of their numbers: what is older is skipped, and a gap
ends it. -/
theorem filterFrom_isRun (sorted : batches.Pairwise fun a b => a.sequenceNumber ≤ b.sequenceNumber)
    (numbered : Numbered batches) (start : Nat) : IsRun batches start (InboxReader.filterFrom start batches) := by
  induction batches generalizing start with
  | nil => exact isRun_gap fun _ member => nomatch member
  | cons b later ih =>
    obtain ⟨least, sorted⟩ := List.pairwise_cons.mp sorted
    obtain ⟨word, others⟩ := List.forall_mem_cons.mp numbered
    rw [InboxReader.filterFrom]
    rcases Nat.lt_trichotomy b.sequenceNumber start with before | rfl | after
    · rw [if_neg (by omega), if_neg (by omega)]
      exact (ih sorted others start).older before
    · rw [if_pos rfl]
      by_cases last : b.sequenceNumber = 2 ^ 64 - 1
      · have stays : saturate (b.sequenceNumber + 1) = 2 ^ 64 - 1 := Nat.min_eq_right (by omega)
        rw [stays]
        exact (ih sorted others _).last last others
      · have counts : saturate (b.sequenceNumber + 1) = b.sequenceNumber + 1 := Nat.min_eq_left (by omega)
        rw [counts]
        exact (ih sorted others _).next last
    · rw [if_neg (by omega), if_pos after]
      exact isRun_gap (List.forall_mem_cons.mpr ⟨after, fun b' member => Nat.lt_of_lt_of_le after (least b' member)⟩)

/-- Sorting leaves the batches of a number in their order. -/
theorem keptOf_sortBatches (good : List SequencerInboxBatch) (i : Nat) :
    keptOf (InboxReader.sortBatches good) i = keptOf good i := by
  have tied (a b : SequencerInboxBatch) (left : decide (a.sequenceNumber = i)) (right : decide (b.sequenceNumber = i)) :
      a.sequenceNumber ≤ b.sequenceNumber := by
    rw [of_decide_eq_true left, of_decide_eq_true right]
  rw [keptOf, keptOf, InboxReader.sortBatches, StableSort.filter_insertionSort tied,
    StableSort.find?_insertionSort tied]

theorem mem_sortBatches : b ∈ InboxReader.sortBatches good ↔ b ∈ good := List.mem_insertionSort _

/-- The filter behind the sort, from any number on. -/
theorem filterFrom_sortBatches (numbered : Numbered good) (start : Nat) :
    IsRun good start (InboxReader.filterFrom start (InboxReader.sortBatches good)) := by
  have sorted : (InboxReader.sortBatches good).Pairwise fun a b => a.sequenceNumber ≤ b.sequenceNumber :=
    List.pairwise_insertionSort _ _
  obtain ⟨m, longest, kept⟩ :=
    filterFrom_isRun sorted (fun b member => numbered b (mem_sortBatches.mp member)) start
  refine ⟨m, (Longest.congr fun k => ?_).mpr longest, ?_⟩
  · simp only [Occurs, mem_sortBatches]
  · rw [kept, funext (keptOf_sortBatches good)]

/-- The last number occurs once at most. -/
def LastOnce (batches : List SequencerInboxBatch) : Prop :=
  batches.countP (·.sequenceNumber = 2 ^ 64 - 1) ≤ 1

theorem keptOf_eq_find (once : LastOnce good) (i : Nat) :
    keptOf good i = (good.find? (·.sequenceNumber = i)).toList := by
  unfold keptOf
  split
  · rename_i last
    rw [LastOnce, List.countP_eq_length_filter] at once
    rw [← List.head?_filter, last]
    generalize good.filter (fun b => b.sequenceNumber = 2 ^ 64 - 1) = group at once ⊢
    match group with
    | [] => rfl
    | [_] => rfl
  · rfl

theorem find?_of_occurs {k : Nat} (occurs : Occurs good start k) :
    ∃ b, good.find? (·.sequenceNumber = start + k) = some b ∧ b.sequenceNumber = start + k := by
  obtain ⟨b, member, same⟩ := occurs
  have found : (good.find? (·.sequenceNumber = start + k)).isSome :=
    List.find?_isSome.mpr ⟨b, member, decide_eq_true same⟩
  obtain ⟨first, here⟩ := Option.isSome_iff_exists.mp found
  have number := List.find?_some here
  exact ⟨first, here, of_decide_eq_true number⟩

/-- Where the last number occurs once at most, a run has one batch of each number, the first. -/
theorem run_of_lastOnce (once : LastOnce good) (longest : Longest (Occurs good start) m) :
    ((List.range' start m).flatMap (keptOf good)).map (·.sequenceNumber) = List.range' start m ∧
      ∀ b ∈ (List.range' start m).flatMap (keptOf good), good.find? (·.sequenceNumber = b.sequenceNumber) = some b := by
  have found (i : Nat) (member : i ∈ List.range' start m) :
      ∃ b, keptOf good i = [b] ∧ good.find? (·.sequenceNumber = i) = some b ∧ b.sequenceNumber = i := by
    obtain ⟨above, below⟩ := List.mem_range'_1.mp member
    obtain ⟨k, rfl⟩ := Nat.exists_eq_add_of_le above
    obtain ⟨b, first, number⟩ := find?_of_occurs ((Longest.iff_fails.mp longest).1 k (by omega))
    exact ⟨b, by rw [keptOf_eq_find once, first]; rfl, first, number⟩
  constructor
  · rw [List.map_flatMap]
    have singles : (List.range' start m).flatMap (fun i => (keptOf good i).map (·.sequenceNumber)) =
        (List.range' start m).flatMap fun i => [i] := by
      apply List.flatMap_congr
      intro i member
      obtain ⟨b, kept, _, number⟩ := found i member
      rw [kept, List.map_singleton, number]
    rw [singles, List.flatMap_singleton']
  · intro b member
    obtain ⟨i, inside, here⟩ := List.mem_flatMap.mp member
    obtain ⟨b', kept, first, number⟩ := found i inside
    rw [kept, List.mem_singleton] at here
    rw [here, number]
    exact first

end Run

section Expected
variable {t : InboxTracker} {n c i : Nat}

theorem getBatchMetadata_stored (stored : t.db.has .sequencerBatchMeta i) :
    ∃ m t', InboxTracker.getBatchMetadata i t = .ok m t' ∧ t'.db = t.db := by
  obtain ⟨m, here⟩ := Option.isSome_iff_exists.mp stored
  rw [InboxTracker.getBatchMetadata, bind_read]
  rcases t.batchMetaCache.get i with ⟨hit | found, cache⟩
  · simp only [here]
    exact ⟨m, _, rfl, rfl⟩
  · exact ⟨found, _, rfl, rfl⟩

/-- The probe stays at the last batch, which has metadata. -/
theorem StorageInvariant.expectedBatch [Externals] (invariant : StorageInvariant t.db n c) :
    ∃ t', InboxReader.expectedBatch t = .ok c t' ∧ t'.db = t.db := by
  rw [InboxReader.expectedBatch, bind_ok (attempt_ok invariant.getBatchCount)]
  have count : (Except.ok c : Except Error Nat).toOption.getD 0 = c := rfl
  rw [count]
  rcases c with _ | _ | c
  · exact ⟨t, rfl, rfl⟩
  · exact ⟨t, rfl, rfl⟩
  · obtain ⟨m, t', found, db⟩ := getBatchMetadata_stored ((invariant.metas (c + 1)).mpr (Nat.lt_succ_self _))
    have probed : InboxReader.probeMetadata (c + 1) t = .ok (c + 1) t' := by
      rw [InboxReader.probeMetadata, bind_ok (attempt_ok found)]
      rfl
    dsimp only
    rw [bind_ok probed]
    exact ⟨t', rfl, db⟩

end Expected

section Filter
variable [Externals] {t t' : InboxTracker} {n c : Nat} {good kept : List SequencerInboxBatch}

/-- The filtered batches are the longest run from the batch count on: of each of its numbers the
first batch, and every batch of the last number of 64 bits. -/
theorem filter_keeps_longest_run (invariant : StorageInvariant t.db n c) (numbered : Numbered good) :
    ∃ kept m t', InboxReader.filteredBatches good t = .ok kept t' ∧ t'.db = t.db ∧ Longest (Occurs good c) m ∧
      kept = (List.range' c m).flatMap (keptOf good) ∧
      (LastOnce good → kept.map (·.sequenceNumber) = List.range' c m ∧
        ∀ b ∈ kept, good.find? (·.sequenceNumber = b.sequenceNumber) = some b) := by
  obtain ⟨t', expected, db⟩ := invariant.expectedBatch
  obtain ⟨m, longest, kept⟩ := filterFrom_sortBatches numbered c
  refine ⟨_, m, t', ?_, db, longest, kept, fun once => ?_⟩
  · rw [InboxReader.filteredBatches, bind_ok expected]
    rfl
  · rw [kept]
    exact run_of_lastOnce once longest

/-- The reader ingests what the filter leaves. -/
theorem ingestBatches_filtered {cfg : InboxReaderConfig} {firstMessageBlock seenCount : Nat} {scan : Scan}
    (filtered : InboxReader.filteredBatches good t = .ok kept t') :
    final (InboxReader.ingestBatches cfg firstMessageBlock scan seenCount good t) =
      final (InboxTracker.addSequencerBatchesAndStream kept t') := by
  obtain ⟨c, t', expected, same⟩ := bind_eq_ok.mp filtered
  cases same
  exact InboxReader.ingestBatches_final expected

end Filter

section Samples
open Codecs

/-- A tracker that has stored `n` batches without a message. -/
def emptyBatchStore : Nat → Db
  | 0 => Store.empty.write [.setCount .delayedMessageCount 0, .setCount .sequencerBatchCount 0]
  | n + 1 => (emptyBatchStore n).write [.put .sequencerBatchMeta n .zero, .setCount .sequencerBatchCount (n + 1)]

theorem emptyBatchStore_metas (n i : Nat) :
    (emptyBatchStore n).get .sequencerBatchMeta i = if i < n then some .zero else none := by
  induction n with
  | zero => simp [emptyBatchStore]
  | succ n ih =>
    simp only [emptyBatchStore, Store.write_cons, Store.write_nil, Store.get_apply_setCount, Store.get_apply_put, ih]
    rcases Nat.lt_trichotomy i n with below | rfl | above
    · rw [if_neg (by omega), if_pos below, if_pos (by omega)]
    · rw [if_pos rfl, if_pos (Nat.lt_succ_self _)]
    · rw [if_neg (by omega), if_neg (by omega), if_neg (by omega)]

theorem emptyBatchStore_other (n : Nat) {table : Table} (other : table ≠ .sequencerBatchMeta) (i : Nat) :
    (emptyBatchStore n).get table i = none := by
  induction n with
  | zero => simp [emptyBatchStore]
  | succ n ih =>
    simp only [emptyBatchStore, Store.write_cons, Store.write_nil, Store.get_apply_setCount,
      Store.get_apply_put_of_ne _ _ _ other, ih]

theorem emptyBatchStore_counts (n : Nat) : (emptyBatchStore n).count .delayedMessageCount = some 0 ∧
    (emptyBatchStore n).count .sequencerBatchCount = some n := by
  induction n with
  | zero => exact ⟨rfl, rfl⟩
  | succ n ih => exact ⟨ih.1, rfl⟩

theorem emptyBatchStore_invariant (n : Nat) : StorageInvariant (emptyBatchStore n) 0 n := by
  have zero {i : Nat} {m : BatchMetadata} (stored : (emptyBatchStore n).get .sequencerBatchMeta i = some m) :
      i < n ∧ m = .zero := by
    rw [emptyBatchStore_metas] at stored
    split at stored
    · rename_i inside
      cases stored
      exact ⟨inside, rfl⟩
    · contradiction
  obtain ⟨delayedCount, batchCount⟩ := emptyBatchStore_counts n
  refine ⟨delayedCount, batchCount, fun i => ?_, fun i data stored => ?_, fun i => ?_, fun k i => ?_,
    fun i m stored => ?_⟩
  · rw [Store.has, emptyBatchStore_other n (by decide) i]
    exact iff_of_false Bool.false_ne_true (Nat.not_lt_zero i)
  · rw [emptyBatchStore_other n (by decide) i] at stored
    contradiction
  · rw [Store.has, emptyBatchStore_metas]
    split <;> simp [*]
  · rw [emptyBatchStore_other n (by decide) k]
    refine iff_of_false (by simp) ?_
    rintro ⟨_, m, previous, stored, _, reads, rises⟩
    obtain rfl := (zero stored).2
    rw [← reads] at rises
    exact absurd rises (Nat.not_lt_zero _)
  · obtain rfl := (zero stored).2
    exact Nat.le_refl 0

theorem emptyBatchStore_expected (n : Nat) :
    ∃ t', InboxReader.expectedBatch (.new (emptyBatchStore n)) = .ok n t' := by
  obtain ⟨t', expected, _⟩ :=
    @StorageInvariant.expectedBatch (.new (emptyBatchStore n)) 0 n _ (emptyBatchStore_invariant n)
  exact ⟨t', expected⟩

/-- Two batches with the last number of 64 bits. -/
def lastTwice : List SequencerInboxBatch := [batch (2 ^ 64 - 1) 0 [], batch (2 ^ 64 - 1) 0 [[3]]]

/-- A tracker that needs the last number takes both. -/
theorem last_number_repeated : StorageInvariant (emptyBatchStore (2 ^ 64 - 1)) 0 (2 ^ 64 - 1) ∧
    (∃ t', InboxReader.filteredBatches lastTwice (.new (emptyBatchStore (2 ^ 64 - 1))) = .ok lastTwice t') ∧
    ¬ (lastTwice.map (·.sequenceNumber)).Nodup := by
  refine ⟨emptyBatchStore_invariant (2 ^ 64 - 1), ?_, by decide⟩
  obtain ⟨t', expected⟩ := emptyBatchStore_expected (2 ^ 64 - 1)
  refine ⟨t', ?_⟩
  rw [InboxReader.filteredBatches, bind_ok expected]
  rfl

/-- After one batch: the two batches that follow it, the first of each number, and not the one
behind the gap. -/
theorem next_two_kept : ∃ t', InboxReader.filteredBatches
    [batch 4 0 [], batch 2 0 [], batch 1 0 [], batch 0 0 [], batch 1 0 [[3]]] (.new (emptyBatchStore 1)) =
      .ok [batch 1 0 [], batch 2 0 []] t' := by
  have numbered : Numbered [batch 4 0 [], batch 2 0 [], batch 1 0 [], batch 0 0 [], batch 1 0 [[3]]] := by
    unfold Numbered
    decide
  obtain ⟨kept, m, t', filtered, _, longest, run, _⟩ := @filter_keeps_longest_run _ (.new (emptyBatchStore 1)) 0 1 _
    (emptyBatchStore_invariant 1) numbered
  have two : Longest (Occurs [batch 4 0 [], batch 2 0 [], batch 1 0 [], batch 0 0 [], batch 1 0 [[3]]] 1) 2 := by
    refine Longest.iff_fails.mpr ?_
    unfold Occurs
    decide
  obtain rfl := longest.unique two
  rw [run] at filtered
  exact ⟨t', filtered⟩

end Samples
end NitroRs
