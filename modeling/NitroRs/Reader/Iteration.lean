import NitroRs.Reader.CaughtUp
import NitroRs.Inbox.CombinedRuns

/-! What the parts of an iteration make of the ledger that the tracker represents. -/
namespace NitroRs
open KeyValue Outcome

/-- The first delayed messages, and the batches that read no others. -/
def Ledger.cut (l : Ledger) (count : Nat) : Ledger where
  delayed := l.delayed.take count
  batches := l.batchesUpTo count
  sorted := l.batchesUpTo_sorted count
  bounded m member := by
    have bound := le_of_mem_batchesUpTo member
    simp only [List.length_take]
    omega

theorem Ledger.reorgDelayed_eq_cut (l : Ledger) {count : Nat} (word : count + 1 < 2 ^ 64) :
    l.reorgDelayed count = l.cut count := by
  rw [Ledger.mk.injEq]
  exact ⟨List.append_nil _, addDelayed_batches word []⟩

/-- Batches read no delayed message that is not there. -/
theorem Ledger.cut_self {l : Ledger} {count : Nat} (enough : l.delayed.length ≤ count) : l.cut count = l := by
  have delayed : l.delayed.take count = l.delayed := List.take_of_length_le enough
  have batches : l.batchesUpTo count = l.batches := by
    apply List.takeWhile_eq_self_iff.mpr
    intro m member
    exact decide_eq_true ((l.bounded m member).trans enough)
  obtain ⟨d, bs, sorted, bounded⟩ := l
  rw [Ledger.cut, Ledger.mk.injEq]
  exact ⟨delayed, batches⟩

/-- The sequence numbers are words of 64 bits. -/
def Numbered (batches : List SequencerInboxBatch) : Prop := ∀ b ∈ batches, b.sequenceNumber < 2 ^ 64

/-- What a batch is on L1, without what the reader adds to it. -/
def SequencerInboxBatch.bare (b : SequencerInboxBatch) : SequencerInboxBatch :=
  { b with serialized := [], blockHash := .zero }

namespace InboxReader

theorem onTracker_ok {x : EStateM Error InboxTracker α} {t t' : InboxTracker} {a : α}
    (ran : x t = .ok a t') : onTracker x t = .ok a t' := by
  rw [onTracker, ran]

theorem onTracker_error {x : EStateM Error InboxTracker α} {t t' : InboxTracker} {e : Error}
    (ran : x t = .error e t') : onTracker x t = .error (.inbox e) t' := by
  rw [onTracker, ran]

theorem final_onTracker (x : EStateM Error InboxTracker α) (t : InboxTracker) :
    final (onTracker x t) = final (x t) := by
  rw [onTracker]
  cases x t <;> rfl

/-! The filter keeps a stretch of the sorted batches. -/

theorem filterFrom_range {batches : List SequencerInboxBatch} {start n : Nat}
    (numbered : batches.map (·.sequenceNumber) = List.range' start n) (words : Numbered batches) (expected : Nat) :
    filterFrom expected batches =
      if start ≤ expected then batches.drop (expected - start) else [] := by
  induction batches generalizing start n expected with
  | nil => simp [filterFrom]
  | cons b later ih =>
    obtain ⟨n, rfl⟩ : ∃ m, n = m + 1 := ⟨n - 1, by
      have := congrArg List.length numbered
      simp at this
      omega⟩
    rw [List.map_cons, List.range'_succ, List.cons.injEq] at numbered
    obtain ⟨rfl, numbered⟩ := numbered
    have others : Numbered later := fun b' member => words b' (List.mem_cons_of_mem _ member)
    rw [filterFrom, ih numbered others, ih numbered others]
    rcases Nat.lt_trichotomy expected b.sequenceNumber with before | rfl | after
    · rw [if_neg (by omega), if_pos before, if_neg (by omega)]
    · rw [if_pos rfl, if_pos le_rfl, Nat.sub_self, List.drop_zero]
      by_cases more : b.sequenceNumber + 1 < 2 ^ 64
      · have counts : saturate (b.sequenceNumber + 1) = b.sequenceNumber + 1 := Nat.min_eq_left (by omega)
        rw [counts, if_pos le_rfl, Nat.sub_self, List.drop_zero]
      · -- the last number of 64 bits has no batch behind it
        have none : later = [] := by
          apply List.eq_nil_iff_forall_not_mem.mpr
          intro b' member
          have past : b'.sequenceNumber ∈ List.range' (b.sequenceNumber + 1) n := numbered ▸ List.mem_map_of_mem member
          have above := (List.mem_range'_1.mp past).1
          have word := others b' member
          omega
        rw [none, List.drop_nil, ite_self]
    · rw [if_neg (by omega), if_neg (by omega), if_pos (by omega), if_pos (by omega),
        show expected - b.sequenceNumber = expected - (b.sequenceNumber + 1) + 1 by omega,
        List.drop_succ_cons]

theorem sortBatches_range {batches : List SequencerInboxBatch} {start n : Nat}
    (numbered : (batches.map (·.sequenceNumber)).Perm (List.range' start n)) :
    (sortBatches batches).map (·.sequenceNumber) = List.range' start n := by
  have sorted : (sortBatches batches).Pairwise fun a b => a.sequenceNumber ≤ b.sequenceNumber :=
    List.pairwise_insertionSort _ _
  have perm := ((List.perm_insertionSort (fun a b : SequencerInboxBatch =>
    a.sequenceNumber ≤ b.sequenceNumber) batches).map (·.sequenceNumber)).trans numbered
  exact perm.eq_of_pairwise' (List.pairwise_map.mpr sorted) ((List.pairwise_lt_range' _).imp Nat.le_of_lt)

/-- The data that is fetched leaves a batch what it is on L1. -/
theorem fetchData_bare {inbox : SequencerInbox} {batches good : List SequencerInboxBatch}
    (fetched : fetchData inbox batches = .ok good) :
    good.map SequencerInboxBatch.bare = batches.map SequencerInboxBatch.bare := by
  induction batches generalizing good with
  | nil =>
    cases fetched
    rfl
  | cons b later ih =>
    rw [fetchData] at fetched
    cases data : batchData inbox b with
    | error e =>
      rw [data] at fetched
      contradiction
    | ok found =>
      rw [data] at fetched
      cases rest : fetchData inbox later with
      | error e =>
        rw [rest] at fetched
        contradiction
      | ok good' =>
        rw [rest] at fetched
        cases fetched
        rw [List.map_cons, List.map_cons, ih rest]
        rfl

section
variable [Externals] {t t' : InboxTracker} {l : Ledger}

theorem getBatchAcc_keeps (i : Nat) : Keeps (Represents · l) (InboxTracker.getBatchAcc i) := by
  refine .bind (fun t represents => ?_) fun m => .of_final fun t => rfl
  rcases represents.getBatchMetadata i with ⟨m, t', _, found, _, represents'⟩ | ⟨_, missing⟩
  · rwa [found]
  · rwa [missing]

theorem checkSequencer_keeps (inbox : SequencerInbox) (height : Nat) :
    Keeps (Represents · l) (checkSequencer inbox height) := by
  unfold checkSequencer
  split
  · refine .bind getBatchCount_keeps fun ourLatest => ?_
    dsimp only
    split
    · exact .bind (getBatchAcc_keeps _) fun _ => .of_final fun _ => rfl
    · exact .of_final fun _ => rfl
  · exact .bind getBatchCount_keeps fun _ => .of_final fun _ => rfl

/-- The sequencer check compares the two counts. -/
theorem checkSequencer_missing (represents : Represents t l) {inbox : SequencerInbox} {height seen : Nat}
    (counted : inbox.getBatchCount height = .ok seen) {found : SequencerCheck}
    (checked : checkSequencer inbox height t = .ok found t') :
    found.missing = decide (l.batches.length < seen) ∧ found.seenCount = seen := by
  rw [checkSequencer, counted] at checked
  dsimp only at checked
  rw [bind_ok represents.getBatchCount] at checked
  split at checked
  · obtain ⟨acc, t₁, _, same⟩ := bind_eq_ok.mp checked
    cases same
    exact ⟨rfl, rfl⟩
  · cases checked
    exact ⟨rfl, rfl⟩

/-- The delayed check leaves the ledger up to L1's count. -/
theorem checkDelayed_represents (represents : Represents t l) (word : l.delayed.length < 2 ^ 64)
    {bridge : DelayedBridge} {height count : Nat} (counted : (bridge.getMessageCount height).toOption.getD 0 = count)
    {found : DelayedCheck}
    (checked : checkDelayed bridge height t = .ok found t') :
    Represents t' (l.cut count) ∧ Agree .streamer t.db t'.db ∧
      found.missing = decide (l.delayed.length < count) := by
  have ours := represents.getDelayedCount
  have cut : ∃ t₁, reorgToL1 l.delayed.length count t = .ok () t₁ ∧
      Represents t₁ (l.cut count) ∧ Agree .streamer t.db t₁.db := by
    unfold reorgToL1
    by_cases shorter : count < l.delayed.length
    · rw [if_pos shorter, ← l.reorgDelayed_eq_cut (by omega)]
      exact reorgDelayedTo_inside represents shorter.le
    · rw [if_neg shorter, Ledger.cut_self (by omega)]
      exact ⟨t, rfl, represents, .refl _ _⟩
  obtain ⟨t₁, reorged, represents₁, frame⟩ := cut
  rw [checkDelayed, counted, bind_read, ours, bind_lift_ok, bind_ok reorged] at checked
  dsimp only at checked
  split at checked
  · rw [bind_read] at checked
    obtain ⟨acc, t₂, read, same⟩ := bind_eq_ok.mp checked
    obtain ⟨_, rfl⟩ := lift_eq_ok.mp read
    cases same
    exact ⟨represents₁, frame, rfl⟩
  · cases checked
    exact ⟨represents₁, frame, rfl⟩

theorem check_represents (represents : Represents t l) (word : l.delayed.length < 2 ^ 64) {l1 : L1Calls} {height count : Nat}
    (counted : (l1.delayedBridge.getMessageCount height).toOption.getD 0 = count)
    {found : DelayedCheck} {sequencer : SequencerCheck}
    (checked : check l1 height t = .ok (found, sequencer) t') :
    Represents t' (l.cut count) ∧ Agree .streamer t.db t'.db ∧
      found.missing = decide (l.delayed.length < count) ∧
      ∀ seen, l1.sequencerInbox.getBatchCount height = .ok seen →
        sequencer.missing = decide ((l.batchesUpTo count).length < seen) := by
  rw [check] at checked
  obtain ⟨found', t₁, first, checked⟩ := bind_eq_ok.mp checked
  obtain ⟨sequencer', t₂, second, same⟩ := bind_eq_ok.mp checked
  cases same
  obtain ⟨represents₁, frame, missing⟩ := checkDelayed_represents represents word counted first
  have kept := checkSequencer_keeps (l := l.cut count) l1.sequencerInbox height t₁ represents₁
  have db := checkSequencer_db l1.sequencerInbox height t₁
  rw [second, final_ok] at kept db
  rw [represents₁.repaired] at db
  refine ⟨kept, db ▸ frame, missing, fun seen counted => ?_⟩
  exact (checkSequencer_missing represents₁ counted second).1

/-- Fetched messages replace the stored ones from the first of them on, or nothing happens. -/
theorem fetchDelayed_represents (represents : Represents t l)
    {lookup : Nat → Nat → Except Error (List DelayedInboxMessage)} {fromBlock toBlock n : Nat}
    (ran : fetchDelayed lookup fromBlock toBlock t = .ok n t') :
    (n = 0 ∧ t' = t) ∨ ∃ first rest ds, lookup fromBlock toBlock = .ok (first :: rest) ∧
      n = rest.length + 1 ∧ first.seqNum ≤ l.delayed.length ∧
      delayedTuples (first :: rest) =
        .ok (delayedInputs first.seqNum (accumulator (l.delayed.take first.seqNum)) ds) ∧
      Represents t' (l.addDelayed first.seqNum ds) ∧ Agree .streamer t.db t'.db := by
  rw [fetchDelayed] at ran
  cases looked : lookup fromBlock toBlock with
  | error e =>
    rw [looked] at ran
    cases ran
    exact .inl ⟨rfl, rfl⟩
  | ok delayed =>
    rw [looked] at ran
    cases delayed with
    | nil =>
      cases ran
      exact .inl ⟨rfl, rfl⟩
    | cons first rest =>
      dsimp only at ran
      cases serialized : delayedTuples (first :: rest) with
      | error e =>
        rw [liftCall, serialized, bind_error (onTracker_error (lift_error e t))] at ran
        contradiction
      | ok tuples =>
        rw [liftCall, serialized, bind_ok (onTracker_ok (lift_ok tuples t))] at ran
        obtain ⟨bytes, later, rfl⟩ : ∃ bytes later,
            tuples = (first.seqNum, first.beforeInboxAcc, bytes) :: later := by
          rw [delayedTuples] at serialized
          cases one : serializeIncomingL1MessageLegacy first.message with
          | error e =>
            rw [one] at serialized
            contradiction
          | ok bytes =>
            cases more : delayedTuples rest with
            | error e =>
              rw [one, more] at serialized
              contradiction
            | ok later =>
              rw [one, more] at serialized
              cases serialized
              exact ⟨bytes, later, rfl⟩
        rcases addDelayedMessages_represents represents
            ((first.seqNum, first.beforeInboxAcc, bytes) :: later) with
          ⟨e, failed⟩ | ⟨empty, _⟩ | ⟨pos, _, _, _, ds, t₁, same, added, inside, given, represents', frame⟩
        · rw [bind_ok (onTracker_ok (attempt_error failed))] at ran
          cases ran
          exact .inl ⟨rfl, rfl⟩
        · contradiction
        · cases same
          rw [bind_ok (onTracker_ok (attempt_ok added))] at ran
          cases ran
          exact .inr ⟨first, rest, ds, rfl, rfl, inside, serialized.trans (congrArg Except.ok given),
            represents', frame⟩

theorem probeMetadata_represents (represents : Represents t l) {n : Nat} (stored : n < l.batches.length) :
    ∃ t', probeMetadata n t = .ok n t' ∧ t'.db = t.db ∧ Represents t' l := by
  cases n with
  | zero => exact ⟨t, rfl, rfl, represents⟩
  | succ n =>
    rcases represents.getBatchMetadata (n + 1) with ⟨m, t', _, found, db, represents'⟩ | ⟨missing, _⟩
    · refine ⟨t', ?_, db, represents'⟩
      rw [probeMetadata, bind_ok (attempt_ok found)]
      rfl
    · rw [List.getElem?_eq_none_iff] at missing
      omega

/-- The tracker needs the batch after its last one. -/
theorem expectedBatch_represents (represents : Represents t l) :
    ∃ t', expectedBatch t = .ok l.batches.length t' ∧ t'.db = t.db ∧ Represents t' l := by
  rw [expectedBatch, bind_ok (attempt_ok represents.getBatchCount)]
  have count : (Except.ok l.batches.length : Except Error Nat).toOption.getD 0 = l.batches.length := rfl
  rw [count]
  cases length : l.batches.length with
  | zero => exact ⟨t, rfl, rfl, represents⟩
  | succ n =>
    obtain ⟨t', probed, db, represents'⟩ := probeMetadata_represents represents (n := n) (by omega)
    exact ⟨t', by dsimp only; rw [bind_ok probed]; rfl, db, represents'⟩

/-- The ingestion changes what the tracker changes for the window that the filter leaves. -/
theorem ingestBatches_final {cfg : InboxReaderConfig} {firstMessageBlock seenCount n : Nat} {scan : Scan}
    {good : List SequencerInboxBatch} (expected : expectedBatch t = .ok n t') :
    final (ingestBatches cfg firstMessageBlock scan seenCount good t) =
      final (InboxTracker.addSequencerBatchesAndStream (filterFrom n (sortBatches good)) t') := by
  rw [ingestBatches, bind_ok expected]
  cases filterFrom n (sortBatches good) with
  | nil =>
    dsimp only
    split <;> rfl
  | cons first later =>
    dsimp only
    cases ran : InboxTracker.addSequencerBatchesAndStream (first :: later) t' with
    | ok _ t₁ =>
      rw [bind_ok (attempt_ok ran)]
      rfl
    | error e t₁ =>
      rw [bind_ok (attempt_error ran)]
      rfl

/-- Batches whose delayed messages are stored are ingested without a backfill. -/
theorem fetchBatches_eq (represents : Represents t l) (cfg : InboxReaderConfig) {l1 : L1Calls}
    (firstMessageBlock : Nat) {scan : Scan} {toBlock : Nat} (seenCount : Nat)
    {batches good : List SequencerInboxBatch}
    (looked : l1.sequencerInbox.lookupBatchesInRange scan.fromBlock toBlock = .ok batches)
    (some : batches ≠ []) (fetched : fetchData l1.sequencerInbox batches = .ok good)
    (enough : ∀ b ∈ batches, b.afterDelayedCount ≤ l.delayed.length) :
    fetchBatches cfg l1 firstMessageBlock scan toBlock seenCount t =
      onTracker (ingestBatches cfg firstMessageBlock scan seenCount good) t := by
  have ours := represents.getDelayedCount
  have counts : good.map (·.afterDelayedCount) = batches.map (·.afterDelayedCount) := by
    have same := congrArg (List.map (·.afterDelayedCount)) (fetchData_bare fetched)
    simpa only [List.map_map, Function.comp_def, SequencerInboxBatch.bare] using same
  have needed : (good.map (·.afterDelayedCount)).max?.getD 0 ≤ l.delayed.length := by
    rw [counts]
    cases top : (batches.map (·.afterDelayedCount)).max? with
    | none => exact Nat.zero_le _
    | some n =>
      obtain ⟨b, member, rfl⟩ := List.mem_map.mp (List.max?_mem top)
      exact enough b member
  have stays : backfillDelayed l1.backfill firstMessageBlock scan.fromBlock toBlock good t = .ok () t := by
    rw [backfillDelayed, bind_read, liftCall, ours, bind_ok (onTracker_ok (lift_ok _ t)),
      if_neg (by omega)]
    rfl
  have found : (l1.sequencerInbox.lookupBatchesInRange scan.fromBlock toBlock).toOption.getD [] =
      batches := by
    rw [looked]
    rfl
  unfold fetchBatches
  rw [found]
  cases batches with
  | nil => contradiction
  | cons b later =>
    dsimp only
    rw [fetched, bind_lift_ok, bind_ok stays]

/-- The tracker at the end of an iteration that fetches. -/
theorem iterate_final {cfg : InboxReaderConfig} {latestMode : Bool} {l1 : L1Calls} {height : Nat}
    {scan : Scan} {r : InboxReader} {found : DelayedCheck} {sequencer : SequencerCheck}
    (checked : check l1 height r.tracker = .ok (found, sequencer) t)
    (missing : nothingMissing found sequencer = false) :
    (final (iterate cfg latestMode l1 height scan r)).tracker =
      final (fetchWindow cfg l1 r.firstMessageBlock
        (min (saturate (scan.fromBlock + scan.blocksToFetch)) height) found sequencer scan t) := by
  have first : withTracker (onTracker (check l1 height)) r =
      .ok (found, sequencer) { r with tracker := t } := zoom_ok (onTracker_ok checked)
  rw [iterate, bind_read, bind_ok first]
  dsimp only
  rw [missing]
  simp only [Bool.false_eq_true, if_false]
  cases ran : fetchWindow cfg l1 r.firstMessageBlock
    (min (saturate (scan.fromBlock + scan.blocksToFetch)) height) found sequencer scan t with
  | ok fetched t' =>
    have second : withTracker (fetchWindow cfg l1 r.firstMessageBlock
        (min (saturate (scan.fromBlock + scan.blocksToFetch)) height) found sequencer scan)
        { r with tracker := t } = .ok fetched { r with tracker := t' } := zoom_ok ran
    rw [bind_ok second, bind_update, final_lift]
    rfl
  | error e t' =>
    have second : withTracker (fetchWindow cfg l1 r.firstMessageBlock
        (min (saturate (scan.fromBlock + scan.blocksToFetch)) height) found sequencer scan)
        { r with tracker := t } = .error e { r with tracker := t' } := zoom_error ran
    rw [bind_error second]
    rfl

end

end InboxReader
end NitroRs
