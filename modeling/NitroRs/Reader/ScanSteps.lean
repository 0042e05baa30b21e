import NitroRs.Reader.L1History

/-! The parts of an iteration on a history: what the batches and a backfill make of the
progress of the tracker. -/
namespace NitroRs
open KeyValue Outcome TransactionStreamer

section
variable [Externals] {t t' : InboxTracker} {first : SequencerInboxBatch} {rest : List SequencerInboxBatch}

/-- Ingesting batches leaves the delayed messages alone. -/
theorem ingest_holds {delayed : List DelayedMessage} (holds : HoldsDelayed t.db delayed)
    (first : SequencerInboxBatch)
    (rest : List SequencerInboxBatch) :
    HoldsDelayed (final (InboxTracker.addSequencerBatchesAndStream (first :: rest) t)).db delayed := by
  obtain ⟨t₂, db, _, outcome⟩ := ingest_cases t first rest
  have holds₂ : HoldsDelayed t₂.db delayed := by
    rcases db with same | repaired
    · rwa [same]
    · rw [repaired]
      exact holds.repaired
  rcases outcome with ⟨_, ended⟩ | ⟨c, out, _, _, reached⟩
  · rwa [final_of_ended ended]
  · have holds₃ := holds₂.of_agree ((StreamerOp.addConfirmed c out none).execute_frame t₂.db)
    simp only [StreamerOp.execute, StreamerOp.call] at holds₃
    rw [reached]
    cases appended : addConfirmedMessagesAndEndBatch c out none t₂.db with
    | error e db' =>
      rw [appended] at holds₃
      rwa [bind_error (InboxTracker.onStreamer_error appended)]
    | ok _ db' =>
      rw [appended] at holds₃
      rw [bind_ok (InboxTracker.onStreamer_ok appended)]
      exact addSequencerBatches_holds holds₃ _

theorem describeBatches_recorded {last : BatchMetadata} {batches : List SequencerInboxBatch} {pos : Nat}
    {metas : List BatchMetadata}
    (described : InboxTracker.describeBatches last batches = .ok (numberFrom pos metas)) :
    metas.map BatchMetadata.recorded = batches.map SequencerInboxBatch.recorded := by
  induction batches generalizing last pos metas with
  | nil =>
    cases metas with
    | nil => rfl
    | cons m metas => cases described
  | cons b later ih =>
    rw [InboxTracker.describeBatches] at described
    cases parsed : parseSequencerMessage b.serialized with
    | error e =>
      rw [parsed] at described
      contradiction
    | ok seq =>
      rw [parsed] at described
      cases more : InboxTracker.describeBatches (InboxTracker.batchMetadata last b seq) later with
      | error e =>
        dsimp only at described
        rw [more] at described
        contradiction
      | ok numbered =>
        dsimp only at described
        rw [more] at described
        cases metas with
        | nil => cases described
        | cons m metas =>
          cases described
          rw [List.map_cons, List.map_cons, ih more]
          rfl

end

namespace Follows
open InboxReader

section
variable [Externals] {h : L1History} {t t' u : InboxTracker} {p : Progress} {upTo : Nat}
  {first : SequencerInboxBatch} {rest : List SequencerInboxBatch}

omit [Externals] in
theorem first_sequenceNumber {n : Nat} (next : (first :: rest).map SequencerInboxBatch.bare =
    ((h.batches.take upTo).drop n).map SequencerInboxBatch.bare) : first.sequenceNumber = n ∧ n < upTo := by
  have head := congrArg List.head? next
  rw [List.map_cons, List.head?_cons, List.head?_map, List.head?_drop] at head
  obtain ⟨b, here, same⟩ := Option.map_eq_some_iff.mp head.symm
  rw [List.getElem?_take] at here
  split at here
  · rename_i inside
    refine ⟨?_, inside⟩
    rw [← sequenceNumber_of_numbered h.numbered here]
    exact (congrArg (·.sequenceNumber) same).symm
  · contradiction

omit [Externals] in
theorem window_recorded {n : Nat} (next : (first :: rest).map SequencerInboxBatch.bare =
    ((h.batches.take upTo).drop n).map SequencerInboxBatch.bare) :
    (first :: rest).map SequencerInboxBatch.recorded =
      ((h.batches.take upTo).drop n).map SequencerInboxBatch.recorded := by
  have same := congrArg (List.map SequencerInboxBatch.recorded) next
  rwa [List.map_map, List.map_map] at same

/-- L1's batches read on from the stored ones. -/
theorem steady (follows : Follows h u p) (next : (first :: rest).map SequencerInboxBatch.bare =
    ((h.batches.take upTo).drop p.batches).map SequencerInboxBatch.bare) : Steady u.db (first :: rest) := by
  intro m stored
  obtain ⟨number, _⟩ := first_sequenceNumber next
  have reads : (first :: rest).map (·.afterDelayedCount) =
      ((h.batches.take upTo).drop p.batches).map (·.afterDelayedCount) := by
    have same := congrArg (List.map Prod.snd) (window_recorded next)
    rwa [List.map_map, List.map_map] at same
  rw [Nondecreasing, reads, List.pairwise_cons]
  refine ⟨fun read member => ?_, ?_⟩
  · obtain ⟨b, listed, rfl⟩ := List.mem_map.mp member
    obtain ⟨i, here⟩ := List.mem_iff_getElem?.mp listed
    rw [List.getElem?_drop, List.getElem?_take] at here
    split at here
    · rw [number] at stored
      cases count : p.batches with
      | zero =>
        rw [count] at stored
        cases stored
        exact Nat.zero_le _
      | succ n =>
        obtain ⟨l, represents, batches⟩ := follows.ledger
        rw [count, represents.storedPrevious_eq, Ledger.previous] at stored
        have entry := congrArg (fun bs => bs[n]?) batches
        simp only [List.getElem?_map, stored, List.getElem?_take] at entry
        rw [if_pos (by omega)] at entry
        obtain ⟨b', there, same⟩ := Option.map_eq_some_iff.mp entry.symm
        have equal : b'.afterDelayedCount = m.delayedMessageCount := congrArg Prod.snd same
        rw [← equal]
        exact h.readsOrdered.le there here (by omega)
    · contradiction
  · rw [List.pairwise_map]
    exact h.readsOrdered.sublist ((List.drop_sublist _ _).trans (List.take_sublist _ _))

/-- The window that follows what is stored: it is taken whole, or the progress stays. -/
theorem ingest (follows : Follows h u p) (upToLe : upTo ≤ h.batches.length)
    (next : (first :: rest).map SequencerInboxBatch.bare =
      ((h.batches.take upTo).drop p.batches).map SequencerInboxBatch.bare) :
    (Takes u (first :: rest) →
      Follows h (final (InboxTracker.addSequencerBatchesAndStream (first :: rest) u)) ⟨p.delayed, upTo⟩) ∧
    (¬ Takes u (first :: rest) →
      Follows h (final (InboxTracker.addSequencerBatchesAndStream (first :: rest) u)) p) := by
  obtain ⟨number, more⟩ := first_sequenceNumber next
  obtain ⟨l, represents, batches⟩ := follows.ledger
  have length := follows.length_ledger batches
  have holds' := ingest_holds follows.delayed first rest
  obtain ⟨l', represents', tidy', change⟩ :=
    ingest_recordedIn represents follows.tidy (first :: rest) (follows.steady next)
  have represents' := change.represents represents'
  constructor
  · intro takes
    refine ⟨follows.delayedLe, upToLe, holds', ⟨l', represents', ?_⟩, tidy'⟩
    rcases change with rfl | ⟨_, _, m, metas, ⟨rfl, rfl⟩, _, described, _, batches'⟩
    · obtain ⟨m, stored, _⟩ := takes.stored first List.mem_cons_self
      rw [represents'.metas, number] at stored
      have inside := (List.getElem?_eq_some_iff.mp stored).1
      omega
    · rw [batches', number, List.take_of_length_le length.le, List.map_append, batches,
        describeBatches_recorded described, window_recorded next, ← List.map_append,
        take_append_between more.le]
  · intro refused
    refine ⟨follows.delayedLe, follows.batchesLe, holds', ⟨l', represents', ?_⟩, tidy'⟩
    have same : l'.batches = l.batches := by
      apply List.ext_getElem?
      intro i
      rw [← represents'.metas, not_takes_unchanged refused, represents.metas]
    rw [same, batches]

/-- Only the cache may differ. -/
theorem of_db (follows : Follows h t p) {l : Ledger} (db : t'.db = t.db) (represents : Represents t' l) :
    Follows h t' p := by
  obtain ⟨l₀, represents₀, batches⟩ := follows.ledger
  have same : l.batches = l₀.batches := by
    apply List.ext_getElem?
    intro i
    rw [← represents.metas, db, represents₀.metas]
  exact ⟨follows.delayedLe, follows.batchesLe, by rw [db]; exact follows.delayed,
    ⟨l, represents, by rw [same, batches]⟩, by rw [db]; exact follows.tidy⟩

theorem expectedBatch (follows : Follows h t p) :
    ∃ u, InboxReader.expectedBatch t = .ok p.batches u ∧ Follows h u p := by
  obtain ⟨l, represents, batches⟩ := follows.ledger
  obtain ⟨u, ran, db, represents'⟩ := expectedBatch_represents represents
  rw [follows.length_ledger batches] at ran
  exact ⟨u, ran, follows.of_db db represents'⟩

/-- A backfill writes delayed messages up to the block of one of the batches, when one of
them reads a message that is missing. -/
theorem backfill (follows : Follows h t p) {lookup : Nat → Nat → Except Error (List DelayedInboxMessage)}
    (reports : Reports h lookup) (firstMessageBlock fromBlock toBlock : Nat) (good : List SequencerInboxBatch) :
    ∃ t', backfillDelayed lookup firstMessageBlock fromBlock toBlock good t = .ok () t' ∧
      (t' = t ∨ (∃ b ∈ good, p.delayed < b.afterDelayedCount) ∧
        ∃ b ∈ good, ∃ pos, Follows h t' (p.write h pos (h.delayedBefore (b.parentChainBlockNumber + 1)))) := by
  rw [backfillDelayed, bind_read, liftCall, follows.delayedCount, bind_ok (onTracker_ok (lift_ok _ t))]
  by_cases lacking : p.delayed < (good.map (·.afterDelayedCount)).max?.getD 0
  · rw [if_pos lacking]
    generalize (if 0 < p.delayed then _ else fromBlock : Nat) = startBlock
    obtain ⟨b, member, reads⟩ : ∃ b ∈ good, p.delayed < b.afterDelayedCount := by
      cases top : (good.map (·.afterDelayedCount)).max? with
      | none =>
        rw [top] at lacking
        exact absurd lacking (Nat.not_lt_zero _)
      | some n =>
        obtain ⟨b, member, rfl⟩ := List.mem_map.mp (List.max?_mem top)
        exact ⟨b, member, by rwa [top] at lacking⟩
    obtain ⟨m, member', last⟩ : ∃ m ∈ good, (good.map (·.parentChainBlockNumber)).max?.getD toBlock =
        m.parentChainBlockNumber := by
      cases top : (good.map (·.parentChainBlockNumber)).max? with
      | none =>
        rw [List.max?_eq_none_iff, List.map_eq_nil_iff] at top
        rw [top] at member
        contradiction
      | some n =>
        obtain ⟨m, member', rfl⟩ := List.mem_map.mp (List.max?_mem top)
        exact ⟨m, member', rfl⟩
    rw [last]
    obtain ⟨n, t', ran, ⟨_, same, _⟩ | ⟨_, _, _, follows'⟩⟩ :=
      follows.fetchDelayed reports startBlock m.parentChainBlockNumber
    · exact ⟨t', bind_ok ran, .inl same⟩
    · exact ⟨t', bind_ok ran, .inr ⟨⟨b, member, reads⟩, m, member', _, follows'⟩⟩
  · rw [if_neg lacking]
    exact ⟨t, rfl, .inl rfl⟩

end
end Follows

namespace InboxReader
section
variable [Externals]

/-- The window of batches that an iteration has ready, and the tracker that it goes to. -/
structure Readies (l1 : L1Calls) (firstMessageBlock toBlock : Nat) (scan : Scan) (t : InboxTracker)
    (window : List SequencerInboxBatch) (u : InboxTracker) : Prop where
  path : ∃ batches good t' n, l1.sequencerInbox.lookupBatchesInRange scan.fromBlock toBlock = .ok batches ∧
    batches ≠ [] ∧ fetchData l1.sequencerInbox batches = .ok good ∧
    backfillDelayed l1.backfill firstMessageBlock scan.fromBlock toBlock good t = .ok () t' ∧
    expectedBatch t' = .ok n u ∧ window = filterFrom n (sortBatches good)

variable {l1 : L1Calls} {firstMessageBlock toBlock n : Nat} {scan : Scan}
  {good : List SequencerInboxBatch} {t u : InboxTracker} {first : SequencerInboxBatch}
  {rest : List SequencerInboxBatch}

theorem ingestBatches_nil (cfg : InboxReaderConfig) (firstMessageBlock seenCount : Nat) (scan : Scan)
    (expected : expectedBatch t = .ok n u) (window : filterFrom n (sortBatches good) = [])
    (early : ∃ b ∈ good, b.sequenceNumber ≤ n) :
    ingestBatches cfg firstMessageBlock scan seenCount good t = .ok ⟨scan, 0, seenCount⟩ u := by
  obtain ⟨b, member, low⟩ := early
  have least : (good.map (·.sequenceNumber)).min?.getD (2 ^ 64 - 1) ≤ n :=
    (List.min?_getD_le_of_mem (List.mem_map_of_mem member)).trans low
  rw [ingestBatches, bind_ok expected, window]
  dsimp only
  rw [if_neg (by omega)]
  rfl

theorem ingestBatches_cons (cfg : InboxReaderConfig) (firstMessageBlock seenCount : Nat) (scan : Scan)
    (expected : expectedBatch t = .ok n u) (window : filterFrom n (sortBatches good) = first :: rest) :
    ∃ len seen, ingestBatches cfg firstMessageBlock scan seenCount good t =
        .ok ⟨scan, len, seen⟩ (final (InboxTracker.addSequencerBatchesAndStream (first :: rest) u)) ∧
      (0 < len ↔ isOk (InboxTracker.addSequencerBatchesAndStream (first :: rest) u) = true) := by
  rw [ingestBatches, bind_ok expected, window]
  dsimp only
  cases ran : InboxTracker.addSequencerBatchesAndStream (first :: rest) u with
  | ok _ t' =>
    rw [bind_ok (attempt_ok ran)]
    exact ⟨_, _, rfl, iff_of_true (Nat.succ_pos _) rfl⟩
  | error e t' =>
    rw [bind_ok (attempt_error ran)]
    exact ⟨_, _, rfl, iff_of_false (Nat.lt_irrefl 0) Bool.false_ne_true⟩

variable {h : L1History} {p : Progress} {height : Nat} {window : List SequencerInboxBatch}

/-- The data that is fetched is that of L1's batches in the range. -/
theorem mem_good (answers : Answers h height l1) {batches : List SequencerInboxBatch}
    (looked : l1.sequencerInbox.lookupBatchesInRange scan.fromBlock toBlock = .ok batches)
    (data : fetchData l1.sequencerInbox batches = .ok good) {b : SequencerInboxBatch} (member : b ∈ good) :
    scan.fromBlock ≤ b.parentChainBlockNumber ∧ b.parentChainBlockNumber < toBlock + 1 ∧
      b.afterDelayedCount ≤ h.delayedBefore (b.parentChainBlockNumber + 1) ∧
      b.sequenceNumber < h.batchesBefore (toBlock + 1) := by
  have known : b.bare ∈ batches.map SequencerInboxBatch.bare :=
    fetchData_bare data ▸ List.mem_map_of_mem member
  obtain ⟨b', listed, same⟩ := List.mem_map.mp known
  have emitted := (answers.batches _ _ _ looked).mem_iff.mp listed
  rw [L1History.batchesIn, List.mem_filter, decide_eq_true_eq] at emitted
  have block : b'.parentChainBlockNumber = b.parentChainBlockNumber := congrArg (·.parentChainBlockNumber) same
  have read : b'.afterDelayedCount = b.afterDelayedCount := congrArg (·.afterDelayedCount) same
  have number : b'.sequenceNumber = b.sequenceNumber := congrArg (·.sequenceNumber) same
  obtain ⟨i, here⟩ := List.mem_iff_getElem?.mp emitted.1
  rw [← block, ← read, ← number, sequenceNumber_of_numbered h.numbered here]
  exact ⟨emitted.2.1, emitted.2.2, h.readsEmitted b' emitted.1,
    L1History.lt_batchesBefore.mpr ⟨b', here, emitted.2.2⟩⟩

/-- Some data is fetched, and it is numbered below the batches after the range. -/
theorem exists_good (answers : Answers h height l1) {batches : List SequencerInboxBatch}
    (looked : l1.sequencerInbox.lookupBatchesInRange scan.fromBlock toBlock = .ok batches)
    (some : batches ≠ []) (data : fetchData l1.sequencerInbox batches = .ok good) :
    ∃ g ∈ good, g.sequenceNumber < h.batchesBefore (toBlock + 1) := by
  have bare := fetchData_bare data
  cases good with
  | nil => exact absurd (List.map_eq_nil_iff.mp bare.symm) some
  | cons g good =>
    obtain ⟨_, _, _, number⟩ := mem_good answers looked data (List.mem_cons_self (l := good) (a := g))
    exact ⟨g, List.mem_cons_self, number⟩

/-- What the filter leaves of the data of a range. -/
theorem looked_bare (answers : Answers h height l1) {batches : List SequencerInboxBatch}
    (looked : l1.sequencerInbox.lookupBatchesInRange scan.fromBlock toBlock = .ok batches)
    (data : fetchData l1.sequencerInbox batches = .ok good) (expected : Nat) :
    (filterFrom expected (sortBatches good)).map SequencerInboxBatch.bare =
      if h.batchesBefore scan.fromBlock ≤ expected then
        ((h.batches.take (h.batchesBefore (toBlock + 1))).drop expected).map SequencerInboxBatch.bare else [] := by
  have perm := answers.batches _ _ _ looked
  rw [L1History.batchesIn_eq] at perm
  refine window_bare ?_ (fun b member => h.words b (List.mem_of_mem_take member)) perm data expected
  rw [List.map_take, h.numbered, List.take_range, List.length_take]

/-- A window that is ready: the backfill apart the progress is the one of the delayed side. -/
theorem Readies.follows (ready : Readies l1 firstMessageBlock toBlock scan t window u) (follows : Follows h t p)
    (answers : Answers h height l1) : ∃ p', Follows h u p' ∧
      (h.delayedBefore (toBlock + 1) ≤ p.delayed → p' = p) ∧
      (h.delayedBefore scan.fromBlock ≤ p.delayed → h.delayedBefore scan.fromBlock ≤ p'.delayed) ∧
      window.map SequencerInboxBatch.bare = if h.batchesBefore scan.fromBlock ≤ p'.batches then
        ((h.batches.take (h.batchesBefore (toBlock + 1))).drop p'.batches).map SequencerInboxBatch.bare else [] := by
  obtain ⟨batches, good, t', n, looked, _, data, backfilled, expected, rfl⟩ := ready.path
  obtain ⟨p', follows', enough, front⟩ : ∃ p', Follows h t' p' ∧
      (h.delayedBefore (toBlock + 1) ≤ p.delayed → p' = p) ∧
      (h.delayedBefore scan.fromBlock ≤ p.delayed → h.delayedBefore scan.fromBlock ≤ p'.delayed) := by
    obtain ⟨t'', ran, cases⟩ := follows.backfill answers.backfill firstMessageBlock scan.fromBlock toBlock good
    cases backfilled.symm.trans ran
    rcases cases with rfl | ⟨⟨b, member, lacking⟩, b', member', pos, follows'⟩
    · exact ⟨p, follows, fun _ => rfl, id⟩
    · obtain ⟨_, inside, read, _⟩ := mem_good answers looked data member
      obtain ⟨later, _⟩ := mem_good answers looked data member'
      refine ⟨_, follows', fun enough => ?_, fun _ => L1History.delayedBefore_mono (by omega)⟩
      have covered := read.trans ((L1History.delayedBefore_mono inside).trans enough)
      omega
  obtain ⟨u', ran, follows''⟩ := follows'.expectedBatch
  cases expected.symm.trans ran
  exact ⟨p', follows'', enough, front, looked_bare answers looked data p'.batches⟩

/-- What the batch side of an iteration comes to: nothing is looked at, nothing is new, or a
window is handed over. -/
inductive BatchSide (h : L1History) (l1 : L1Calls) (firstMessageBlock toBlock : Nat) (scan : Scan)
    (t : InboxTracker) (p : Progress) : Fetched → Progress → Prop
  | idle {seen : Nat} (nothing : (∃ e, l1.sequencerInbox.lookupBatchesInRange scan.fromBlock toBlock = .error e) ∨
      h.batchesBefore (toBlock + 1) ≤ h.batchesBefore scan.fromBlock) :
      BatchSide h l1 firstMessageBlock toBlock scan t p ⟨scan, 0, seen⟩ p
  | stored {u : InboxTracker} {p' : Progress} {seen : Nat}
      (ready : Readies l1 firstMessageBlock toBlock scan t [] u) (follows : Follows h u p')
      (enough : h.delayedBefore (toBlock + 1) ≤ p.delayed → p' = p) (covers : Covers h p' scan.fromBlock)
      (reached : h.batchesBefore (toBlock + 1) ≤ p'.batches) :
      BatchSide h l1 firstMessageBlock toBlock scan t p ⟨scan, 0, seen⟩ p'
  | handed {u : InboxTracker} {p' p'' : Progress} {len seen : Nat} {first : SequencerInboxBatch}
      {rest : List SequencerInboxBatch} (ready : Readies l1 firstMessageBlock toBlock scan t (first :: rest) u)
      (follows : Follows h u p') (enough : h.delayedBefore (toBlock + 1) ≤ p.delayed → p' = p)
      (covers : Covers h p' scan.fromBlock) (more : p'.batches < h.batchesBefore (toBlock + 1))
      (accepted : 0 < len ↔ isOk (InboxTracker.addSequencerBatchesAndStream (first :: rest) u) = true)
      (taken : Takes u (first :: rest) → p'' = ⟨p'.delayed, h.batchesBefore (toBlock + 1)⟩)
      (refused : ¬ Takes u (first :: rest) → p'' = p') :
      BatchSide h l1 firstMessageBlock toBlock scan t p ⟨scan, len, seen⟩ p''

theorem BatchSide.covers {p' : Progress} {fetched : Fetched}
    (side : BatchSide h l1 firstMessageBlock toBlock scan t p fetched p') (covers : Covers h p scan.fromBlock) :
    Covers h p' scan.fromBlock := by
  cases side with
  | idle nothing => exact covers
  | stored ready follows enough covers' reached => exact covers'
  | @handed u p₁ _ _ _ first rest ready follows enough covers' more accepted taken refused =>
    by_cases takes : Takes u (first :: rest)
    · rw [taken takes]
      exact ⟨covers'.delayed, covers'.batches.trans more.le⟩
    · rwa [refused takes]

section Windows
variable {t₁ : InboxTracker} {p₁ : Progress} {batches : List SequencerInboxBatch}

/-- Nothing of the data is new. -/
theorem ingestBatches_stored (cfg : InboxReaderConfig) (seenCount : Nat) (answers : Answers h height l1)
    (looked : l1.sequencerInbox.lookupBatchesInRange scan.fromBlock toBlock = .ok batches) (some : batches ≠ [])
    (data : fetchData l1.sequencerInbox batches = .ok good) (expected : expectedBatch t₁ = .ok p₁.batches u)
    (window : filterFrom p₁.batches (sortBatches good) = [])
    (ready : Readies l1 firstMessageBlock toBlock scan t [] u)
    (follows : Follows h u p₁) (enough : h.delayedBefore (toBlock + 1) ≤ p.delayed → p₁ = p)
    (covers : Covers h p₁ scan.fromBlock) :
    onTracker (ingestBatches cfg firstMessageBlock scan seenCount good) t₁ = .ok ⟨scan, 0, seenCount⟩ u ∧
      BatchSide h l1 firstMessageBlock toBlock scan t p ⟨scan, 0, seenCount⟩ p₁ := by
  have bare := looked_bare answers looked data p₁.batches
  rw [window, if_pos covers.batches, List.map_nil, eq_comm, List.map_eq_nil_iff, List.drop_eq_nil_iff,
    List.length_take_of_le L1History.batchesBefore_le] at bare
  obtain ⟨g, member, number⟩ := exists_good answers looked some data
  exact ⟨onTracker_ok (ingestBatches_nil cfg firstMessageBlock seenCount scan expected window
    ⟨g, member, number.le.trans bare⟩), .stored ready follows enough covers bare⟩

/-- New batches are handed over. -/
theorem ingestBatches_handed (cfg : InboxReaderConfig) (seenCount : Nat) (answers : Answers h height l1)
    (looked : l1.sequencerInbox.lookupBatchesInRange scan.fromBlock toBlock = .ok batches)
    (data : fetchData l1.sequencerInbox batches = .ok good) (expected : expectedBatch t₁ = .ok p₁.batches u)
    (window : filterFrom p₁.batches (sortBatches good) = first :: rest)
    (ready : Readies l1 firstMessageBlock toBlock scan t (first :: rest) u) (follows : Follows h u p₁)
    (enough : h.delayedBefore (toBlock + 1) ≤ p.delayed → p₁ = p)
    (front : h.delayedBefore scan.fromBlock ≤ p.delayed → h.delayedBefore scan.fromBlock ≤ p₁.delayed) :
    ∃ len seen t' p', onTracker (ingestBatches cfg firstMessageBlock scan seenCount good) t₁ =
        .ok ⟨scan, len, seen⟩ t' ∧ Follows h t' p' ∧
      (h.delayedBefore scan.fromBlock ≤ p.delayed →
        BatchSide h l1 firstMessageBlock toBlock scan t p ⟨scan, len, seen⟩ p') := by
  have bare := looked_bare answers looked data p₁.batches
  have reached : h.batchesBefore scan.fromBlock ≤ p₁.batches := by
    rw [window] at bare
    split at bare
    · assumption
    · contradiction
  have next : (first :: rest).map SequencerInboxBatch.bare =
      ((h.batches.take (h.batchesBefore (toBlock + 1))).drop p₁.batches).map SequencerInboxBatch.bare := by
    rwa [window, if_pos reached] at bare
  obtain ⟨_, more⟩ := Follows.first_sequenceNumber next
  obtain ⟨len, seen, ingested, accepted⟩ := ingestBatches_cons cfg firstMessageBlock seenCount scan expected window
  obtain ⟨taken, refused⟩ := follows.ingest L1History.batchesBefore_le next
  by_cases takes : Takes u (first :: rest)
  · refine ⟨len, seen, _, _, onTracker_ok ingested, taken takes, fun covers => ?_⟩
    exact .handed ready follows enough ⟨front covers, reached⟩ more accepted (fun _ => rfl)
      (fun refused => absurd takes refused)
  · refine ⟨len, seen, _, _, onTracker_ok ingested, refused takes, fun covers => ?_⟩
    exact .handed ready follows enough ⟨front covers, reached⟩ more accepted (fun taken => absurd taken takes)
      (fun _ => rfl)

end Windows

theorem fetchBatches_follows (follows : Follows h t p) (answers : Answers h height l1)
    (cfg : InboxReaderConfig) (firstMessageBlock : Nat) (scan : Scan) (toBlock seenCount : Nat) :
    ∃ p', Follows h (final (fetchBatches cfg l1 firstMessageBlock scan toBlock seenCount t)) p' ∧
      (Covers h p scan.fromBlock →
        (∀ window u, Readies l1 firstMessageBlock toBlock scan t window u → HasBatches h u scan.fromBlock) →
        Covers h p' scan.fromBlock) ∧
      ∀ fetched t', fetchBatches cfg l1 firstMessageBlock scan toBlock seenCount t = .ok fetched t' →
        h.delayedBefore scan.fromBlock ≤ p.delayed →
        (∀ window u, Readies l1 firstMessageBlock toBlock scan t window u → HasBatches h u scan.fromBlock) →
        BatchSide h l1 firstMessageBlock toBlock scan t p fetched p' := by
  rw [fetchBatches]
  cases looked : l1.sequencerInbox.lookupBatchesInRange scan.fromBlock toBlock with
  | error e =>
    refine ⟨p, follows, fun covers _ => covers, fun fetched t' ran _ _ => ?_⟩
    cases ran
    exact .idle (.inl ⟨e, looked⟩)
  | ok batches =>
    have perm := answers.batches _ _ _ looked
    cases batches with
    | nil =>
      refine ⟨p, follows, fun covers _ => covers, fun fetched t' ran _ _ => ?_⟩
      cases ran
      refine .idle (.inr ?_)
      have length := perm.length_eq
      rw [L1History.batchesIn_length, List.length_nil] at length
      omega
    | cons b later =>
      have found : (Except.ok (b :: later) : Except Error (List SequencerInboxBatch)).toOption.getD [] =
        b :: later := rfl
      rw [found]
      dsimp only
      cases data : fetchData l1.sequencerInbox (b :: later) with
      | error e =>
        refine ⟨p, follows, fun covers _ => covers, fun fetched t' ran _ _ => ?_⟩
        cases ran
      | ok good =>
        obtain ⟨t₁, backfilled, side⟩ :=
          follows.backfill answers.backfill firstMessageBlock scan.fromBlock toBlock good
        obtain ⟨p₁, follows₁⟩ : ∃ p₁, Follows h t₁ p₁ := by
          rcases side with rfl | ⟨_, _, _, _, follows₁⟩
          · exact ⟨p, follows⟩
          · exact ⟨_, follows₁⟩
        obtain ⟨u, expected, follows₂⟩ := follows₁.expectedBatch
        have ready : Readies l1 firstMessageBlock toBlock scan t (filterFrom p₁.batches (sortBatches good)) u :=
          ⟨b :: later, good, t₁, p₁.batches, looked, List.cons_ne_nil _ _, data, backfilled, expected, rfl⟩
        obtain ⟨p₂, follows', enough, front, _⟩ := ready.follows follows answers
        obtain rfl := follows₂.unique follows'
        rw [bind_lift_ok, bind_ok backfilled, final_onTracker]
        cases window : filterFrom p₁.batches (sortBatches good) with
        | nil =>
          rw [window] at ready
          refine ⟨p₁, ?_, fun covers has => ?_, fun fetched t' ran covers has => ?_⟩
          · rw [ingestBatches_final expected, window]
            exact follows₂
          · exact ⟨front covers.delayed, follows₂.hasBatches_iff.mp (has _ _ ready)⟩
          · have reached := follows₂.hasBatches_iff.mp (has _ _ ready)
            obtain ⟨ingested, side⟩ := ingestBatches_stored cfg seenCount answers looked (List.cons_ne_nil _ _) data
              expected window ready follows₂ enough ⟨front covers, reached⟩
            rw [ingested] at ran
            cases ran
            exact side
        | cons first rest =>
          rw [window] at ready
          obtain ⟨len, seen, t', p', ingested, follows', side⟩ := ingestBatches_handed cfg seenCount answers looked data
            expected window ready follows₂ enough front
          rw [← final_onTracker, ingested]
          refine ⟨p', follows', fun covers _ => (side covers.delayed).covers covers, fun fetched t' ran covers _ => ?_⟩
          cases ran
          exact side covers

theorem fetchDelayed_answered {lookup : Nat → Nat → Except Error (List DelayedInboxMessage)} {fromBlock : Nat}
    {t' : InboxTracker} (ran : InboxReader.fetchDelayed lookup fromBlock toBlock t = .ok n t') (some : 0 < n) :
    ¬ ∃ e, lookup fromBlock toBlock = .error e := by
  rintro ⟨e, failed⟩
  rw [InboxReader.fetchDelayed, failed] at ran
  cases ran
  exact Nat.lt_irrefl 0 some

/-- The delayed side of an iteration reads nothing, when its lookup fails or has nothing, or
it writes the messages of the window. -/
theorem fetchMissingDelayed_follows (follows : Follows h t p) (answers : Answers h height l1) (found : DelayedCheck)
    (covers : Covers h p scan.fromBlock)
    (present : (found.missing || found.reorging) = false → h.delayedBefore (toBlock + 1) ≤ p.delayed) :
    ∃ added t' p', fetchMissingDelayed l1 found scan.fromBlock toBlock t = .ok added t' ∧ Follows h t' p' ∧
      ((added = 0 ∧ p' = p ∧ ((∃ e, l1.delayedBridge.lookupMessagesInRange scan.fromBlock toBlock = .error e) ∨
          h.delayedBefore (toBlock + 1) ≤ p.delayed)) ∨
        (0 < added ∧ (found.missing || found.reorging) = true ∧
          (¬ ∃ e, l1.delayedBridge.lookupMessagesInRange scan.fromBlock toBlock = .error e) ∧
          h.delayedBefore scan.fromBlock < h.delayedBefore (toBlock + 1) ∧
          p' = p.write h (h.delayedBefore scan.fromBlock) (h.delayedBefore (toBlock + 1)))) := by
  rw [fetchMissingDelayed]
  cases made : found.missing || found.reorging with
  | false =>
    rw [if_neg Bool.false_ne_true]
    exact ⟨0, t, p, rfl, follows, .inl ⟨rfl, rfl, .inr (present made)⟩⟩
  | true =>
    rw [if_pos rfl]
    obtain ⟨n, t', ran, ⟨rfl, rfl, none⟩ | ⟨some, inside, more, follows'⟩⟩ :=
      follows.fetchDelayed answers.messages scan.fromBlock toBlock
    · refine ⟨0, _, p, ran, follows, .inl ⟨rfl, rfl, ?_⟩⟩
      rcases none with failed | empty | outside
      · exact .inl failed
      · exact .inr (empty.trans covers.delayed)
      · exact absurd covers.delayed (by omega)
    · exact ⟨n, t', _, ran, follows', .inr ⟨some, rfl, fetchDelayed_answered ran some, more, rfl⟩⟩

end
end InboxReader
end NitroRs
