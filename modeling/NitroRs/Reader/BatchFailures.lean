import NitroRs.Reader.ScanPosition

/-! Batches whose data cannot be fetched. The loop has an arm for them, but their failures
leave it before they get there. -/
namespace NitroRs
open Outcome

/-- The data of a batch is to be had: its location is one that the reader knows, and L1
answers with it. -/
inductive Fetchable (inbox : SequencerInbox) (b : SequencerInboxBatch) : Prop
  | txInput {txInput data : Bytes} (location : b.dataLocation = 0) (answer : inbox.getTxInput b.txHash = .ok txInput)
      (found : InboxReader.extractBatchData txInput = .ok data)
  | event {answer : Bytes × B256} (location : b.dataLocation = 1) (answered :
      inbox.getSequencerMessageBytesInBlock b.parentChainBlockNumber b.sequenceNumber b.txHash b.blockHash = .ok answer)
  | empty (location : b.dataLocation = 2)

namespace InboxReader
variable {inbox : SequencerInbox} {b : SequencerInboxBatch} {batches good : List SequencerInboxBatch}

/-- A batch with the data that is fetched for it. -/
def fetchedBatch (inbox : SequencerInbox) (b : SequencerInboxBatch) : Except ReaderError SequencerInboxBatch :=
  (batchData inbox b).map fun (data, blockHash) => { b with
    serialized := batchHeader b.timeBounds b.afterDelayedCount ++ data
    blockHash := if b.blockHash = .zero then blockHash else b.blockHash }

/-- The batches whose data can be fetched, in order. -/
def goodBatches (inbox : SequencerInbox) (batches : List SequencerInboxBatch) : List SequencerInboxBatch :=
  batches.filterMap fun b => (fetchedBatch inbox b).toOption

/-- L1 without the batches whose data cannot be fetched. -/
def withoutFailures (l1 : L1Calls) : L1Calls := { l1 with
  sequencerInbox := { l1.sequencerInbox with
    lookupBatchesInRange := fun fromBlock toBlock =>
      (l1.sequencerInbox.lookupBatchesInRange fromBlock toBlock).map
        (·.filter fun b => (batchData l1.sequencerInbox b).isOk) } }

theorem batchData_isOk : (∃ found, batchData inbox b = .ok found) ↔ Fetchable inbox b := by
  constructor
  · rintro ⟨found, data⟩
    unfold batchData at data
    split at data
    · rename_i location
      split at data
      · contradiction
      · rename_i txInput answer
        cases bytes : extractBatchData txInput with
        | error e =>
          rw [bytes] at data
          contradiction
        | ok bytes' => exact .txInput location answer bytes
    · rename_i location
      cases answered : inbox.getSequencerMessageBytesInBlock b.parentChainBlockNumber b.sequenceNumber b.txHash
        b.blockHash with
      | error e =>
        rw [answered] at data
        contradiction
      | ok answer => exact .event location answered
    · rename_i location
      exact .empty location
    · contradiction
    · contradiction
  · intro fetchable
    cases fetchable with
    | txInput location answer found =>
      rw [batchData, location, answer]
      dsimp only
      rw [found]
      exact ⟨_, rfl⟩
    | event location answered =>
      rw [batchData, location, answered]
      exact ⟨_, rfl⟩
    | empty location =>
      rw [batchData, location]
      exact ⟨_, rfl⟩

theorem fetchedBatch_isOk : (∃ g, fetchedBatch inbox b = .ok g) ↔ Fetchable inbox b := by
  rw [← batchData_isOk, fetchedBatch]
  cases batchData inbox b with
  | ok found => exact iff_of_true ⟨_, rfl⟩ ⟨_, rfl⟩
  | error e => exact iff_of_false (fun ⟨_, same⟩ => nomatch same) (fun ⟨_, same⟩ => nomatch same)

theorem fetchData_cons : fetchData inbox (b :: batches) =
    fetchedBatch inbox b >>= fun g => fetchData inbox batches >>= fun good => .ok (g :: good) := by
  rw [fetchData, fetchedBatch]
  cases batchData inbox b <;> rfl

/-- The loop over the batches gets through exactly when it can fetch the data of them all. -/
theorem fetchData_eq_ok_iff (good : List SequencerInboxBatch) : fetchData inbox batches = .ok good ↔
    (∀ b ∈ batches, Fetchable inbox b) ∧ good = goodBatches inbox batches := by
  induction batches generalizing good with
  | nil => simp [fetchData, goodBatches, eq_comm]
  | cons b later ih =>
    rw [fetchData_cons, List.forall_mem_cons]
    cases data : fetchedBatch inbox b with
    | error e =>
      have failed : ¬ Fetchable inbox b := by
        rw [← fetchedBatch_isOk, data]
        rintro ⟨_, same⟩
        contradiction
      refine iff_of_false ?_ fun all => failed all.1.1
      intro same
      contradiction
    | ok g =>
      have fetchable : Fetchable inbox b := fetchedBatch_isOk.mp ⟨g, data⟩
      have first : goodBatches inbox (b :: later) = g :: goodBatches inbox later :=
        List.filterMap_cons_some (by rw [data]; rfl)
      rw [first]
      change (fetchData inbox later >>= fun rest => .ok (g :: rest)) = .ok good ↔ _
      constructor
      · intro fetched
        obtain ⟨rest, more, same⟩ := except_bind_eq_ok.mp fetched
        cases same
        obtain ⟨all, rfl⟩ := (ih rest).mp more
        exact ⟨⟨fetchable, all⟩, rfl⟩
      · rintro ⟨⟨_, all⟩, rfl⟩
        exact except_bind_eq_ok.mpr ⟨_, (ih _).mpr ⟨all, rfl⟩, rfl⟩

theorem fetchData_lookup (batchLookup : Nat → Nat → Except Error (List SequencerInboxBatch)) :
    fetchData { inbox with lookupBatchesInRange := batchLookup } batches = fetchData inbox batches := by
  induction batches with
  | nil => rfl
  | cons b later ih => simp only [fetchData, ih, batchData]

theorem withoutFailures_lookup {l1 : L1Calls} {lo hi : Nat}
    (looked : l1.sequencerInbox.lookupBatchesInRange lo hi = .ok batches)
    (all : ∀ b ∈ batches, Fetchable l1.sequencerInbox b) :
    (withoutFailures l1).sequencerInbox.lookupBatchesInRange lo hi = .ok batches := by
  have kept : batches.filter (fun b => (batchData l1.sequencerInbox b).isOk) = batches := by
    refine List.filter_eq_self.mpr fun b member => ?_
    obtain ⟨found, data⟩ := batchData_isOk.mpr (all b member)
    rw [data]
    rfl
  simp only [withoutFailures, looked, Except.map, kept]

section
variable [Externals] {cfg : InboxReaderConfig} {latestMode : Bool} {l1 : L1Calls} {height : Nat}
  {scan scan' : Scan} {r r' : InboxReader} {found : DelayedCheck} {sequencer : SequencerCheck} {t : InboxTracker}

/-- An iteration that looks batches up gets to its end only through their data. -/
theorem iterate_fetches (checked : check l1 height r.tracker = .ok (found, sequencer) t)
    (asked : (sequencer.missing || sequencer.reorging) = true)
    (looked : l1.sequencerInbox.lookupBatchesInRange scan.fromBlock (scan.toBlock height) = .ok batches)
    (ran : iterate cfg latestMode l1 height scan r = .ok scan' r') :
    ∃ good, fetchData l1.sequencerInbox batches = .ok good := by
  have missing : nothingMissing found sequencer = false := by
    rcases Bool.or_eq_true _ _ |>.mp asked with flag | flag <;> simp [nothingMissing, flag]
  obtain ⟨added, fetched, t', window, _⟩ := iterate_eq_ok checked missing ran
  obtain ⟨_, t₁, _, rest⟩ := bind_eq_ok.mp window
  obtain ⟨outcome, t₂, fetches, _⟩ := bind_eq_ok.mp rest
  rw [fetchMissingBatches, if_pos asked, fetchBatches, looked] at fetches
  cases batches with
  | nil => exact ⟨[], rfl⟩
  | cons b later =>
    obtain ⟨good, t₃, data, _⟩ := bind_eq_ok.mp fetches
    exact ⟨good, (lift_eq_ok.mp data).1⟩

/-- An iteration looks batches up in its own window only. -/
theorem iterate_congr {batchLookup : Nat → Nat → Except Error (List SequencerInboxBatch)}
    (same : batchLookup scan.fromBlock (scan.toBlock height) =
      l1.sequencerInbox.lookupBatchesInRange scan.fromBlock (scan.toBlock height)) :
    iterate cfg latestMode { l1 with sequencerInbox := { l1.sequencerInbox with
      lookupBatchesInRange := batchLookup } } height scan r = iterate cfg latestMode l1 height scan r := by
  have checks : check { l1 with sequencerInbox := { l1.sequencerInbox with
      lookupBatchesInRange := batchLookup } } height = check l1 height := rfl
  have window (firstMessageBlock : Nat) (found : DelayedCheck) (sequencer : SequencerCheck) :
      fetchWindow cfg { l1 with sequencerInbox := { l1.sequencerInbox with lookupBatchesInRange := batchLookup } }
        firstMessageBlock (min (saturate (scan.fromBlock + scan.blocksToFetch)) height) found sequencer scan =
      fetchWindow cfg l1 firstMessageBlock (min (saturate (scan.fromBlock + scan.blocksToFetch)) height)
        found sequencer scan := by
    rw [Scan.toBlock] at same
    simp only [fetchWindow, fetchMissingBatches, fetchMissingDelayed, fetchBatches, same, fetchData_lookup]
  simp only [iterate, checks, window]

/-- A batch that cannot be fetched ends the reader. -/
theorem failed_batch_ends_reader (checked : check l1 height r.tracker = .ok (found, sequencer) t)
    (asked : (sequencer.missing || sequencer.reorging) = true)
    (looked : l1.sequencerInbox.lookupBatchesInRange scan.fromBlock (scan.toBlock height) = .ok batches)
    (failed : ∃ b ∈ batches, ¬ Fetchable l1.sequencerInbox b) :
    ∃ e r', iterate cfg latestMode l1 height scan r = .error e r' := by
  cases ran : iterate cfg latestMode l1 height scan r with
  | error e r' => exact ⟨e, r', rfl⟩
  | ok scan' r' =>
    obtain ⟨good, fetched⟩ := iterate_fetches checked asked looked ran
    obtain ⟨b, member, unfetchable⟩ := failed
    exact absurd (((fetchData_eq_ok_iff good).mp fetched).1 b member) unfetchable

/-- The loop keeps the batches that have data, and the reader goes on as if the others were
not there, exactly when there are no others. -/
theorem failed_batches_skipped_iff
    (looked : l1.sequencerInbox.lookupBatchesInRange scan.fromBlock (scan.toBlock height) = .ok batches) :
    (fetchData l1.sequencerInbox batches = .ok (goodBatches l1.sequencerInbox batches) ∧
      ∀ scan' r', iterate cfg latestMode (withoutFailures l1) height scan r = .ok scan' r' →
        iterate cfg latestMode l1 height scan r = .ok scan' r') ↔
      ∀ b ∈ batches, Fetchable l1.sequencerInbox b := by
  constructor
  · rintro ⟨fetched, _⟩
    exact ((fetchData_eq_ok_iff _).mp fetched).1
  · intro all
    refine ⟨(fetchData_eq_ok_iff _).mpr ⟨all, rfl⟩, fun scan' r' goesOn => ?_⟩
    rw [← goesOn, withoutFailures]
    refine (iterate_congr ?_).symm
    exact (withoutFailures_lookup looked all).trans looked.symm

end

section Samples
open Codecs

/-- L1 with two batches, the first of them in a blob or in an event. -/
def twoBatches (location : UInt8) : L1Calls := { reorgedL1 with
  sequencerInbox := { reorgedL1.sequencerInbox with
    getBatchCount := fun _ => .ok 2
    lookupBatchesInRange := fun _ _ =>
      .ok [{ newBatch with dataLocation := location }, { newBatch with sequenceNumber := 1, dataLocation := 2 }] } }

/-- The second batch has its data, and the loop ends with neither. -/
theorem blob_batch_ends_loop : ¬ ∀ (l1 : L1Calls) (height : Nat) (scan : Scan) (r : InboxReader) (batches : _),
    l1.sequencerInbox.lookupBatchesInRange scan.fromBlock (scan.toBlock height) = .ok batches →
    fetchData l1.sequencerInbox batches = .ok (goodBatches l1.sequencerInbox batches) ∧
      ∀ scan' r', iterate defaultConfig true (withoutFailures l1) height scan r = .ok scan' r' →
        iterate defaultConfig true l1 height scan r = .ok scan' r' := by
  intro always
  obtain ⟨fetched, _⟩ := always (twoBatches 3) 10 ⟨0, 200⟩ (new (InboxTracker.restart .empty) 0) _ rfl
  contradiction

/-- The batches that are listed with the first one in an event. -/
def eventBatches : List SequencerInboxBatch :=
  [{ newBatch with dataLocation := 1 }, { newBatch with sequenceNumber := 1, dataLocation := 2 }]

theorem event_batch_fetched :
    fetchData (twoBatches 1).sequencerInbox eventBatches =
      .ok (goodBatches (twoBatches 1).sequencerInbox eventBatches) ∧
    ∀ scan' r', iterate defaultConfig true (withoutFailures (twoBatches 1)) 10 ⟨0, 200⟩
        (new (InboxTracker.restart .empty) 0) = .ok scan' r' →
      iterate defaultConfig true (twoBatches 1) 10 ⟨0, 200⟩ (new (InboxTracker.restart .empty) 0) =
        .ok scan' r' := by
  refine (failed_batches_skipped_iff rfl).mpr ?_
  rw [eventBatches]
  simp only [List.forall_mem_cons]
  exact ⟨.event rfl rfl, .empty rfl, fun b member => nomatch member⟩

end Samples
end InboxReader
end NitroRs
