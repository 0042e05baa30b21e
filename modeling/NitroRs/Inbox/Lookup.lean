import Mathlib.Data.List.Chain
import NitroRs.Inbox.MetadataCache

/-! The lookup of the batch that a message is in. The search takes two shortcuts, at a
batch that ends at the message or behind it; they lead astray where batches without
messages share that end. -/
namespace NitroRs
open KeyValue Outcome

/-- Message `pos` is in batch `i`. -/
def InBatch (db : Db) (pos i : Nat) : Prop :=
  ∃ previous m, storedPrevious db i = some previous ∧ db.get .sequencerBatchMeta i = some m ∧
    previous.messageCount ≤ pos ∧ pos < m.messageCount

/-- No batch without messages ends at message `pos` or behind it, apart from batch 0. -/
def NoEmptyBatchAt (db : Db) (pos : Nat) : Prop :=
  ∀ i previous m, db.get .sequencerBatchMeta i = some previous →
    db.get .sequencerBatchMeta (i + 1) = some m → previous.messageCount = m.messageCount →
      m.messageCount ≠ pos ∧ m.messageCount ≠ pos + 1

/-- No batch reaches behind message `pos`. -/
def EndsInFront (db : Db) (pos : Nat) : Prop := ∀ i m, db.get .sequencerBatchMeta i = some m → m.messageCount ≤ pos

/-- The lookup answers with the batch of the message, if there is one. -/
def Locates (t : InboxTracker) (pos : Nat) : Prop :=
  ∃ n i found t', InboxTracker.getBatchCount t = .ok n t ∧
    InboxTracker.findInboxBatchContainingMessage pos t = .ok (i, found) t' ∧
    (found = false ↔
      n = 0 ∨ ∃ last, t.db.get .sequencerBatchMeta (n - 1) = some last ∧ last.messageCount ≤ pos) ∧
    (found = true → InBatch t.db pos i)

/-- A tracker that holds exactly a list of batches, its cache included. -/
structure HoldsBatches (t : InboxTracker) (batches : List BatchMetadata) : Prop
    extends BatchTables t.db batches where
  coherent : CacheCoherent t

section Search
variable {t : InboxTracker} {batches : List BatchMetadata} {pos : Nat} {m : BatchMetadata}

theorem HoldsBatches.getBatchMessageCount (holds : HoldsBatches t batches) {i : Nat}
    (here : batches[i]? = some m) : ∃ t', InboxTracker.getBatchMessageCount i t =
      .ok m.messageCount t' ∧ t'.db = t.db ∧ HoldsBatches t' batches := by
  rcases holds.coherent.getBatchMetadata i with ⟨m', t', stored, read, db, coherent⟩ | ⟨missing, _⟩
  · rw [holds.metas, here] at stored
    cases stored
    refine ⟨t', by rw [InboxTracker.getBatchMessageCount, bind_ok read, pure_apply], db, ?_, coherent⟩
    rw [db]
    exact holds.toBatchTables
  · rw [holds.metas, here] at missing
    contradiction

theorem HoldsBatches.storedPrevious (holds : HoldsBatches t batches) {i : Nat}
    (inside : i ≤ batches.length) : ∃ previous, NitroRs.storedPrevious t.db i = some previous ∧
      Ascending.before BatchMetadata.messageCount batches i = previous.messageCount ∧
      Ascending.before BatchMetadata.delayedMessageCount batches i = previous.delayedMessageCount := by
  obtain ⟨previous, stored, before⟩ := storedPrevious_of_metas holds.metas inside
  exact ⟨previous, stored, before _ rfl, before _ rfl⟩

theorem HoldsBatches.previousMetadata (holds : HoldsBatches t batches) (pos : Nat) :
    (∃ m t', pos ≤ batches.length ∧ InboxTracker.previousMetadata pos t = .ok m t' ∧
      NitroRs.storedPrevious t.db pos = some m) ∨
    ∃ e, InboxTracker.previousMetadata pos t = .error e t := by
  cases pos with
  | zero => exact .inl ⟨.zero, t, Nat.zero_le _, rfl, rfl⟩
  | succ pos =>
    rw [InboxTracker.previousMetadata, if_pos (Nat.succ_pos pos), Nat.add_sub_cancel]
    rcases holds.coherent.getBatchMetadata pos with ⟨m, t', stored, read, _, _⟩ | ⟨_, failed⟩
    · have inside := (List.getElem?_eq_some_iff.mp ((holds.metas pos).symm.trans stored)).1
      exact .inl ⟨m, t', inside, read, stored⟩
    · exact .inr ⟨_, failed⟩

theorem HoldsBatches.inBatch (holds : HoldsBatches t batches) {i : Nat} (here : batches[i]? = some m)
    (above : Ascending.before BatchMetadata.messageCount batches i ≤ pos) (below : pos < m.messageCount) :
    InBatch t.db pos i := by
  have inside := (List.getElem?_eq_some_iff.mp here).1
  obtain ⟨previous, stored, before, _⟩ := holds.storedPrevious inside.le
  exact ⟨previous, m, stored, (holds.metas i).trans here, before ▸ above, below⟩

/-- Where no empty batch is in the way, the end of a batch at `pos` is in front of the next one. -/
theorem HoldsBatches.next_ends_behind (holds : HoldsBatches t batches)
    (sorted : Ascending.Sorted BatchMetadata.messageCount batches) (clear : NoEmptyBatchAt t.db pos)
    {i : Nat} {next : BatchMetadata} (here : batches[i]? = some m) (there : batches[i + 1]? = some next)
    (ends : m.messageCount = pos) : pos < next.messageCount := by
  have order := sorted.le here there (Nat.le_succ i)
  have apart : m.messageCount ≠ next.messageCount := by
    intro same
    have stored := clear i m next ((holds.metas i).trans here) ((holds.metas (i + 1)).trans there) same
    omega
  omega

/-- Nor does the batch in front of one that ends right behind `pos` end there. -/
theorem HoldsBatches.previous_ends_in_front (holds : HoldsBatches t batches)
    (sorted : Ascending.Sorted BatchMetadata.messageCount batches) (clear : NoEmptyBatchAt t.db pos)
    {i : Nat} (here : batches[i]? = some m) (ends : m.messageCount = pos + 1) :
    Ascending.before BatchMetadata.messageCount batches i ≤ pos := by
  cases i with
  | zero => exact Nat.zero_le pos
  | succ i =>
    have inside := (List.getElem?_eq_some_iff.mp here).1
    have previous : batches[i]? = some batches[i] := List.getElem?_eq_getElem (by omega)
    have order := sorted.le previous here (Nat.le_succ i)
    have apart : (batches[i]).messageCount ≠ m.messageCount := by
      intro same
      have stored := clear i _ m ((holds.metas i).trans previous) ((holds.metas (i + 1)).trans here) same
      omega
    simp only [Ascending.before, previous, Option.map_some, Option.getD_some]
    omega

/-- The loop. All batches in front of `low` end at or in front of `pos`, and `high`
ends behind it. -/
theorem HoldsBatches.searchBatches (holds : HoldsBatches t batches)
    (sorted : Ascending.Sorted BatchMetadata.messageCount batches) {fuel low high : Nat}
    (top : batches[high]? = some m) (below : pos < m.messageCount)
    (above : Ascending.before BatchMetadata.messageCount batches low ≤ pos) (order : low ≤ high)
    (enough : high < low + fuel) : ∃ i t', InboxTracker.searchBatches pos fuel low high t =
      .ok (i, true) t' ∧ (NoEmptyBatchAt t.db pos → InBatch t.db pos i) := by
  induction fuel generalizing low high m t with
  | zero => omega
  | succ fuel ih =>
    have length := (List.getElem?_eq_some_iff.mp top).1
    obtain ⟨mid, middle⟩ : ∃ mid, (low + high) / 2 = mid := ⟨_, rfl⟩
    have inside : low ≤ mid ∧ mid ≤ high := by omega
    have here : batches[mid]? = some batches[mid] := List.getElem?_eq_getElem (by omega)
    obtain ⟨t₁, count, db, holds₁⟩ := holds.getBatchMessageCount here
    rw [InboxTracker.searchBatches, middle, bind_ok count]
    generalize batches[mid] = x at here
    -- `high` ends behind `pos`, so `mid` is below it unless it ends there too
    have apart : x.messageCount ≤ pos → mid ≠ high := by
      rintro short rfl
      rw [top] at here
      cases here
      omega
    by_cases short : x.messageCount < pos
    · rw [if_pos short]
      have lower : mid < high := lt_of_le_of_ne inside.2 (apart short.le)
      have above' : Ascending.before BatchMetadata.messageCount batches (mid + 1) ≤ pos := by
        simp only [Ascending.before, here, Option.map_some, Option.getD_some]
        exact short.le
      by_cases next : high = mid + 1
      · rw [if_pos next]
        exact ⟨high, t₁, rfl, fun _ => holds.inBatch top (next ▸ above') below⟩
      · rw [if_neg next, ← db]
        exact ih holds₁ top below above' (by omega) (by omega)
    · rw [if_neg short]
      by_cases ends : x.messageCount = pos
      · rw [if_pos ends]
        have lower : mid < high := lt_of_le_of_ne inside.2 (apart ends.le)
        have there : batches[mid + 1]? = some batches[mid + 1] := List.getElem?_eq_getElem (by omega)
        refine ⟨mid + 1, t₁, rfl, fun clear => holds.inBatch there ?_ ?_⟩
        · simp only [Ascending.before, here, Option.map_some, Option.getD_some]
          exact ends.le
        · exact holds.next_ends_behind sorted clear here there ends
      · rw [if_neg ends]
        by_cases stop : x.messageCount = pos + 1 ∨ mid = low
        · rw [if_pos stop]
          refine ⟨mid, t₁, rfl, fun clear => holds.inBatch here ?_ (by omega)⟩
          rcases stop with behind | rfl
          · exact holds.previous_ends_in_front sorted clear here behind
          · exact above
        · rw [if_neg stop, ← db]
          rw [not_or] at stop
          exact ih holds₁ here (by omega) above inside.1 (by omega)

/-- The lookup always comes to an end, and finds no batch exactly when none reaches behind `pos`. -/
theorem HoldsBatches.lookup (holds : HoldsBatches t batches)
    (sorted : Ascending.Sorted BatchMetadata.messageCount batches) (pos : Nat) :
    ∃ i found t', InboxTracker.findInboxBatchContainingMessage pos t = .ok (i, found) t' ∧
      (found = false ↔ batches.length = 0 ∨
        ∃ last, t.db.get .sequencerBatchMeta (batches.length - 1) = some last ∧
          last.messageCount ≤ pos) ∧
      (found = true → NoEmptyBatchAt t.db pos → InBatch t.db pos i) := by
  rw [InboxTracker.findInboxBatchContainingMessage, bind_ok holds.toBatchTables.getBatchCount]
  by_cases none : batches.length = 0
  · rw [if_pos none]
    exact ⟨0, false, t, rfl, by simp [none], Bool.noConfusion⟩
  · rw [if_neg none]
    have here : batches[batches.length - 1]? = some batches[batches.length - 1] :=
      List.getElem?_eq_getElem (by omega)
    obtain ⟨t₁, count, db, holds₁⟩ := holds.getBatchMessageCount here
    generalize batches[batches.length - 1] = last at here count
    have stored := (holds.metas (batches.length - 1)).trans here
    rw [bind_ok count]
    by_cases past : last.messageCount ≤ pos
    · rw [if_pos past]
      exact ⟨0, false, t₁, rfl, by simp [stored, past], Bool.noConfusion⟩
    · rw [if_neg past]
      obtain ⟨i, t', found, right⟩ := holds₁.searchBatches sorted here (not_le.mp past)
        (Nat.zero_le _) (Nat.zero_le _)
        (show batches.length - 1 < 0 + (batches.length - 1 + 1) by omega)
      rw [db] at right
      exact ⟨i, true, t', found, by simp [none, stored, past], fun _ => right⟩

theorem HoldsBatches.locates (holds : HoldsBatches t batches)
    (sorted : Ascending.Sorted BatchMetadata.messageCount batches)
    (clear : NoEmptyBatchAt t.db pos ∨ EndsInFront t.db pos) : Locates t pos := by
  obtain ⟨i, found, t', looked, missing, right⟩ := holds.lookup sorted pos
  refine ⟨batches.length, i, found, t', holds.toBatchTables.getBatchCount, looked, missing, fun hit => ?_⟩
  rcases clear with clear | ended
  · exact right hit clear
  · -- then the lookup has found nothing
    have past : found = false := by
      refine missing.mpr ?_
      by_cases none : batches.length = 0
      · exact .inl none
      · have stored := (holds.metas (batches.length - 1)).trans (List.getElem?_eq_getElem (by omega))
        exact .inr ⟨_, stored, ended _ _ stored⟩
    cases past.symm.trans hit

end Search

/-- Every batch but batch 0 has an L2 segment or reads a delayed message, when `read` of them
are read in front of the first one. -/
def CountsMessages [Externals] (read : Nat) (batches : List SequencerInboxBatch) : Prop :=
  ∀ (i : Nat) b before seq, batches[i]? = some b →
    (read :: batches.map (·.afterDelayedCount))[i]? = some before →
    parseSequencerMessage b.serialized = .ok seq →
      b.sequenceNumber = 0 ∨ 0 < seq.segments.countP InboxTracker.isL2Segment ∨
        before < b.afterDelayedCount

/-- As `Steady`, and no batch is without messages. -/
def Productive [Externals] (db : Db) : List SequencerInboxBatch → Prop
  | [] => True
  | first :: rest => ∀ m, storedPrevious db first.sequenceNumber = some m →
      CountsMessages m.delayedMessageCount (first :: rest)

namespace TrackerUpdate

/-- What the L1 contract promises about a call. -/
def Promised (t : InboxTracker) : TrackerUpdate → Prop
  | addSequencerBatches batches => Steady t.db batches
  | _ => True

/-- A call that adds no batch without messages, batch 0 apart. -/
def AddsMessages [Externals] (t : InboxTracker) : TrackerUpdate → Prop
  | addSequencerBatches batches => Productive t.db batches
  | _ => True

/-- Each batch that a call adds is related to the one in front of it. -/
def Links [Externals] (R : BatchMetadata → BatchMetadata → Prop) (t : InboxTracker) :
    TrackerUpdate → Prop
  | addSequencerBatches (first :: rest) => ∀ m, storedPrevious t.db first.sequenceNumber = some m →
      ∀ (i : Nat) b before seq, (first :: rest)[i]? = some b → b.sequenceNumber ≠ 0 →
        (m.delayedMessageCount :: (first :: rest).map (·.afterDelayedCount))[i]? =
          some before.delayedMessageCount →
        parseSequencerMessage b.serialized = .ok seq → R before (InboxTracker.batchMetadata before b seq)
  | _ => True

end TrackerUpdate

/-- The states of the runs from `initialize` on a fresh database, with the updates that
`allowed` admits in the state in front of each. -/
inductive UpdateReachable [Externals] (allowed : InboxTracker → TrackerUpdate → Prop) :
    InboxTracker → Prop where
  | init {db : Db} : Fresh db →
      UpdateReachable allowed (final (InboxTracker.initializeTracker (.new db)))
  | update {t : InboxTracker} (u : TrackerUpdate) : UpdateReachable allowed t → allowed t u →
      UpdateReachable allowed (final (u.run t))

section Runs
variable [Externals] {t : InboxTracker} {batches : List BatchMetadata}
  {R : BatchMetadata → BatchMetadata → Prop}

/-- Each batch is related to the stored or new one in front of it, if one is. -/
theorem described_chain {pos : Nat} {acc : B256} {db : Db} {m : BatchMetadata}
    {added : List SequencerInboxBatch} {metas : List BatchMetadata}
    (chain : batches.IsChain R) (inside : pos ≤ batches.length)
    (previous : 0 < pos → batches[pos - 1]? = some m)
    (checked : InboxTracker.checkBatches db pos acc added = .ok ())
    (described : InboxTracker.describeBatches m added = .ok (numberFrom pos metas))
    (related : ∀ (i : Nat) b before seq, added[i]? = some b → b.sequenceNumber ≠ 0 →
      (m.delayedMessageCount :: added.map (·.afterDelayedCount))[i]? = some before.delayedMessageCount →
      parseSequencerMessage b.serialized = .ok seq → R before (InboxTracker.batchMetadata before b seq)) :
    (batches.take pos ++ metas).IsChain R := by
  obtain ⟨ms, same, counts, entries⟩ := describeBatches_eq_ok checked described
  obtain rfl := numberFrom_injective same
  have front : (batches.take pos).length = pos := List.length_take_of_le inside
  have step {i : Nat} {x y : BatchMetadata} (here : (m :: metas)[i]? = some x)
      (there : metas[i]? = some y) (behind : pos + i ≠ 0) : R x y := by
    have length : metas.length = added.length := by simpa using congrArg List.length counts
    have short := (List.getElem?_eq_some_iff.mp there).1
    have batch : added[i]? = some added[i] := List.getElem?_eq_getElem (by omega)
    obtain ⟨number, before, seq, before_eq, parsed, entry⟩ := entries i _ batch
    rw [here] at before_eq
    cases before_eq
    rw [there] at entry
    cases entry
    refine related i _ x seq batch (by omega) ?_ parsed
    rw [← counts, ← List.map_cons (f := BatchMetadata.delayedMessageCount), List.getElem?_map, here]
    rfl
  refine (chain.take pos).append ?_ ?_
  · rw [List.isChain_iff_getElem]
    intro i short
    exact step (i := i + 1) (by rw [List.getElem?_cons_succ, List.getElem?_eq_getElem])
      (List.getElem?_eq_getElem short) (by omega)
  · intro x last y first
    rw [Option.mem_def, List.getLast?_eq_getElem?, front, List.getElem?_take] at last
    split at last
    · have behind : 0 < pos := by omega
      rw [previous behind] at last
      cases last
      rw [Option.mem_def, List.head?_eq_getElem?] at first
      exact step (i := 0) rfl first (by omega)
    · contradiction

/-- An update keeps neighbours related if the batches that it adds are. -/
theorem HoldsBatches.update (holds : HoldsBatches t batches) (chain : batches.IsChain R)
    {u : TrackerUpdate} (promised : u.Promised t) (related : u.Links R t) :
    ∃ batches', HoldsBatches (final (u.run t)) batches' ∧ batches'.IsChain R := by
  have coherent := update_coherent u t holds.coherent
  suffices written : ∃ batches', BatchTables (t.db.write (u.writes t)) batches' ∧ batches'.IsChain R by
    obtain ⟨batches', tables, chain'⟩ := written
    rw [← u.run_db t] at tables
    exact ⟨batches', ⟨tables, coherent⟩, chain'⟩
  cases u with
  | addDelayedMessages messages snapSync =>
    rcases TrackerUpdate.writes_addDelayedMessages t messages snapSync with
      nothing | ⟨pos, startAcc, acc, ds, _, same⟩
    · rw [nothing]
      exact ⟨batches, holds.toBatchTables, chain⟩
    · rw [same]
      exact ⟨_, holds.after_delayed pos _ (delayedPuts_off pos acc ds),
        chain.prefix (List.takeWhile_prefix _)⟩
  | addSequencerBatches added =>
    rcases TrackerUpdate.writes_addSequencerBatches t added with
      nothing | ⟨first, rest, m, cache, metas, rfl, _, read, checked, described, counts, same⟩
    · rw [nothing]
      exact ⟨batches, holds.toBatchTables, chain⟩
    · rcases holds.previousMetadata first.sequenceNumber with
        ⟨m', t', inside, read', stored⟩ | ⟨e, failed⟩
      swap
      · cases failed.symm.trans read
      cases read'.symm.trans read
      obtain ⟨previous, stored', _, before⟩ := holds.storedPrevious inside
      cases stored.symm.trans stored'
      rw [same]
      refine ⟨batches.take first.sequenceNumber ++ metas, holds.after_batches inside before metas
        (sorted_append holds.sorted inside before counts (promised m stored)), ?_⟩
      refine described_chain chain inside ?_ checked described (related m stored)
      intro behind
      obtain ⟨n, number⟩ : ∃ n, first.sequenceNumber = n + 1 := ⟨first.sequenceNumber - 1, by omega⟩
      rw [number] at stored ⊢
      exact (holds.metas n).symm.trans stored
  | reorgDelayedTo count =>
    exact ⟨_, holds.after_delayed count count fun _ member => absurd member List.not_mem_nil,
      chain.prefix (List.takeWhile_prefix _)⟩
  | reorgBatchesToDb count =>
    rw [TrackerUpdate.writes]
    rcases holds.previousMetadata count with ⟨m, t', inside, read, stored⟩ | ⟨e, failed⟩
    · rw [read]
      obtain ⟨previous, stored', _, before⟩ := holds.storedPrevious inside
      cases stored.symm.trans stored'
      have tables := holds.after_batches inside before []
        (by rw [List.append_nil]; exact holds.sorted.sublist (List.take_sublist _ _))
      simp only [numberFrom, InboxTracker.batchOps, List.append_nil, List.length_nil, Nat.add_zero] at tables
      exact ⟨_, tables, chain.take count⟩
    · rw [failed]
      exact ⟨batches, holds.toBatchTables, chain⟩

/-- The message counts never decrease. -/
theorem TrackerUpdate.links_le (t : InboxTracker) (u : TrackerUpdate) :
    u.Links (fun previous m => previous.messageCount ≤ m.messageCount) t := by
  cases u with
  | addSequencerBatches batches =>
    cases batches with
    | nil => trivial
    | cons first rest =>
      intro m _ i b before seq _ _ _ _
      simp only [InboxTracker.batchMetadata]
      omega
  | addDelayedMessages messages snapSync => trivial
  | reorgDelayedTo count => trivial
  | reorgBatchesToDb count => trivial

theorem TrackerUpdate.AddsMessages.links {u : TrackerUpdate} (adds : u.AddsMessages t) :
    u.Links (fun previous m => previous.messageCount < m.messageCount) t := by
  cases u with
  | addSequencerBatches batches =>
    cases batches with
    | nil => trivial
    | cons first rest =>
      intro m stored i b before seq here behind read parsed
      have counts := adds m stored i b before.delayedMessageCount seq here read parsed
      simp only [InboxTracker.batchMetadata]
      omega
  | addDelayedMessages messages snapSync => trivial
  | reorgDelayedTo count => trivial
  | reorgBatchesToDb count => trivial

theorem UpdateReachable.mono {allowed allowed' : InboxTracker → TrackerUpdate → Prop}
    (reached : UpdateReachable allowed t) (weaker : ∀ t u, allowed t u → allowed' t u) :
    UpdateReachable allowed' t := by
  induction reached with
  | init fresh => exact .init fresh
  | update u _ ok ih => exact .update u ih (weaker _ u ok)

theorem UpdateReachable.holdsBatches {allowed : InboxTracker → TrackerUpdate → Prop}
    (reached : UpdateReachable allowed t) (promised : ∀ t u, allowed t u → u.Promised t)
    (related : ∀ t u, allowed t u → u.Links R t) :
    ∃ batches, HoldsBatches t batches ∧ batches.IsChain R := by
  induction reached with
  | init fresh =>
    have represents := initializeTracker_represents fresh
    refine ⟨[], ⟨represents.batchTables, fun k m hit => ?_⟩, .nil⟩
    exact represents.cache k m hit
  | update u _ ok ih =>
    obtain ⟨batches, holds, chain⟩ := ih
    exact holds.update chain (promised _ u ok) (related _ u ok)

/-- The order of the batches by their message counts. -/
instance : Trans (fun x y : BatchMetadata => x.messageCount ≤ y.messageCount)
    (fun x y : BatchMetadata => x.messageCount ≤ y.messageCount)
    (fun x y : BatchMetadata => x.messageCount ≤ y.messageCount) :=
  ⟨fun first second => le_trans first second⟩

/-- In every run, the lookup is right about every message that no batch without messages ends at or
right behind, and about those behind the last batch; so about every message of a run without such
batches. -/
theorem locates_where_clear (reached : UpdateReachable (fun t u => u.Promised t) t) :
    (∀ pos, NoEmptyBatchAt t.db pos ∨ EndsInFront t.db pos → Locates t pos) ∧
    (UpdateReachable (fun t u => u.Promised t ∧ u.AddsMessages t) t → ∀ pos, Locates t pos) := by
  obtain ⟨batches, holds, chain⟩ :=
    reached.holdsBatches (fun _ _ => id) (fun t u _ => u.links_le t)
  have sorted : Ascending.Sorted BatchMetadata.messageCount batches := chain.pairwise
  refine ⟨fun pos clear => holds.locates sorted clear, fun adding pos => ?_⟩
  obtain ⟨batches', holds', strict⟩ :=
    adding.holdsBatches (fun _ _ ok => ok.1) (fun t u ok => ok.2.links)
  refine holds.locates sorted (.inl ?_)
  intro i previous m here there same
  rw [holds'.metas] at here there
  obtain ⟨short, rfl⟩ := List.getElem?_eq_some_iff.mp there
  obtain ⟨_, rfl⟩ := List.getElem?_eq_some_iff.mp here
  exact absurd same (List.isChain_iff_getElem.mp strict i short).ne

end Runs

section Samples
open Codecs

theorem twoBatches_reached :
    UpdateReachable (fun t u => u.Promised t ∧ u.AddsMessages t) twoBatches := by
  change UpdateReachable _ (final (TrackerUpdate.run
    (.addSequencerBatches [batch 0 0 [[0, 7]], batch 1 0 [[0, 8]]]) initialTracker))
  refine .update _ (.init (.refl _ _)) ⟨?_, ?_⟩
  · rintro m ⟨⟩
    exact (by decide : List.Pairwise (· ≤ ·) [0, 0, 0])
  · rintro m ⟨⟩ i b before seq here _ parsed
    match i, here with
    | 0, rfl => exact .inl rfl
    | 1, rfl =>
      have counted : (parseSequencerMessage (batch 1 0 [[0, 8]]).serialized).toOption.map
          (fun seq => seq.segments.countP InboxTracker.isL2Segment) = some 1 := by decide +kernel
      rw [parsed] at counted
      have one : seq.segments.countP InboxTracker.isL2Segment = 1 := Option.some.inj counted
      exact .inr (.inl (one ▸ Nat.one_pos))

/-- Message 1 is looked up among two batches of one message each. -/
theorem twoBatches_locates : Locates twoBatches 1 :=
  (locates_where_clear (twoBatches_reached.mono fun _ _ => And.left)).2 twoBatches_reached 1

/-- Three batches without messages in front of one with a message. -/
def emptyBatches : InboxTracker := final (InboxTracker.addSequencerBatches
  [batch 0 0 [], batch 1 0 [], batch 2 0 [], batch 3 0 [[0, 7]]] initialTracker)

/-- Message 0 is in batch 3, and the lookup answers batch 2. -/
theorem lookup_stops_at_empty_batch :
    UpdateReachable (fun t u => u.Promised t) emptyBatches ∧ ¬ Locates emptyBatches 0 := by
  constructor
  · change UpdateReachable _ (final (TrackerUpdate.run (.addSequencerBatches
      [batch 0 0 [], batch 1 0 [], batch 2 0 [], batch 3 0 [[0, 7]]]) initialTracker))
    refine .update _ (.init (.refl _ _)) ?_
    rintro m ⟨⟩
    exact (by decide : List.Pairwise (· ≤ ·) [0, 0, 0, 0, 0])
  · rintro ⟨n, i, found, t', _, looked, _, right⟩
    have answer : (match InboxTracker.findInboxBatchContainingMessage 0 emptyBatches with
      | .ok (i, found) _ => decide (i = 2) && found
      | .error _ _ => false) = true := by decide +kernel
    have empty : (emptyBatches.db.get .sequencerBatchMeta 2).map (·.messageCount) = some 0 := by
      decide +kernel
    rw [looked] at answer
    simp only [Bool.and_eq_true, decide_eq_true_eq] at answer
    obtain ⟨rfl, hit⟩ := answer
    obtain ⟨_, m, _, stored, _, below⟩ := right hit
    rw [stored, Option.map_some, Option.some_inj] at empty
    omega

end Samples
end NitroRs
