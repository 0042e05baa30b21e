import NitroRs.Reader.SequencerReorg

/-! A fixed L1 history. The tracker holds a number of its delayed messages and a number of
its batches, and the parts of an iteration move the two numbers. -/
namespace NitroRs
open KeyValue Outcome TransactionStreamer

theorem take_append_between {xs : List α} {i j : Nat} (order : i ≤ j) :
    xs.take i ++ (xs.take j).drop i = xs.take j := by
  rw [List.drop_take, ← List.take_add, Nat.add_sub_cancel' order]

/-- The block of a delayed message, as its header has it. -/
def DelayedMessage.block (d : DelayedMessage) : Nat := d.msg.header.blockNumber.toNat

/-- What L1 emits, from the first message block on, counted in 64 bits. A batch reads delayed
messages of its own block and of the blocks before it. -/
structure L1History where
  firstMessageBlock : Nat
  delayed : List DelayedMessage
  batches : List SequencerInboxBatch
  delayedDeployed : ∀ d ∈ delayed, firstMessageBlock ≤ d.block
  batchesDeployed : ∀ b ∈ batches, firstMessageBlock ≤ b.parentChainBlockNumber
  delayedOrdered : Ascending.Sorted DelayedMessage.block delayed
  batchesOrdered : Ascending.Sorted SequencerInboxBatch.parentChainBlockNumber batches
  numbered : batches.map (·.sequenceNumber) = List.range batches.length
  delayedCounted : delayed.length < 2 ^ 64
  batchesCounted : batches.length < 2 ^ 64
  readsOrdered : Ascending.Sorted SequencerInboxBatch.afterDelayedCount batches
  readsEmitted : ∀ b ∈ batches,
    b.afterDelayedCount ≤ Ascending.below DelayedMessage.block (b.parentChainBlockNumber + 1) delayed

namespace L1History

/-- The number of delayed messages emitted before a block. -/
def delayedBefore (h : L1History) (block : Nat) : Nat :=
  Ascending.below DelayedMessage.block block h.delayed

def batchesBefore (h : L1History) (block : Nat) : Nat :=
  Ascending.below SequencerInboxBatch.parentChainBlockNumber block h.batches

/-- The number of batches that read at most `count` delayed messages. -/
def readUpTo (h : L1History) (count : Nat) : Nat :=
  (Ascending.upTo SequencerInboxBatch.afterDelayedCount count h.batches).length

def messagesIn (h : L1History) (fromBlock toBlock : Nat) : List DelayedMessage :=
  h.delayed.filter fun d => fromBlock ≤ d.block ∧ d.block < toBlock + 1

def batchesIn (h : L1History) (fromBlock toBlock : Nat) : List SequencerInboxBatch :=
  h.batches.filter fun b => fromBlock ≤ b.parentChainBlockNumber ∧ b.parentChainBlockNumber < toBlock + 1

variable {h : L1History} {lo hi count block i : Nat}

theorem words (h : L1History) : Numbered h.batches := by
  intro b member
  have number : b.sequenceNumber ∈ List.range h.batches.length := h.numbered ▸ List.mem_map_of_mem member
  exact (List.mem_range.mp number).trans h.batchesCounted

theorem messagesIn_eq (h : L1History) (lo hi : Nat) :
    h.messagesIn lo hi = (h.delayed.take (h.delayedBefore (hi + 1))).drop (h.delayedBefore lo) :=
  Ascending.filter_between h.delayedOrdered

theorem batchesIn_eq (h : L1History) (lo hi : Nat) :
    h.batchesIn lo hi = (h.batches.take (h.batchesBefore (hi + 1))).drop (h.batchesBefore lo) :=
  Ascending.filter_between h.batchesOrdered

theorem delayedBefore_le : h.delayedBefore block ≤ h.delayed.length := Ascending.below_le_length

theorem batchesBefore_le : h.batchesBefore block ≤ h.batches.length := Ascending.below_le_length

theorem batchesIn_length (h : L1History) (lo hi : Nat) :
    (h.batchesIn lo hi).length = h.batchesBefore (hi + 1) - h.batchesBefore lo := by
  rw [batchesIn_eq, List.length_drop, List.length_take_of_le batchesBefore_le]

theorem delayedBefore_mono (order : lo ≤ hi) : h.delayedBefore lo ≤ h.delayedBefore hi :=
  Ascending.below_mono order

theorem batchesBefore_mono (order : lo ≤ hi) : h.batchesBefore lo ≤ h.batchesBefore hi :=
  Ascending.below_mono order

theorem lt_delayedBefore : i < h.delayedBefore block ↔ ∃ d, h.delayed[i]? = some d ∧ d.block < block :=
  Ascending.lt_below h.delayedOrdered

theorem lt_batchesBefore :
    i < h.batchesBefore block ↔ ∃ b, h.batches[i]? = some b ∧ b.parentChainBlockNumber < block :=
  Ascending.lt_below h.batchesOrdered

theorem lt_readUpTo : i < h.readUpTo count ↔ ∃ b, h.batches[i]? = some b ∧ b.afterDelayedCount ≤ count :=
  Ascending.lt_length_upTo h.readsOrdered

/-- The batches before a block read no message from that block on. -/
theorem batchesBefore_le_readUpTo (h : L1History) (block : Nat) :
    h.batchesBefore block ≤ h.readUpTo (h.delayedBefore block) := by
  refine le_of_forall_lt fun i inside => ?_
  obtain ⟨b, here, earlier⟩ := lt_batchesBefore.mp inside
  refine lt_readUpTo.mpr ⟨b, here, (h.readsEmitted b (List.mem_of_getElem? here)).trans ?_⟩
  exact delayedBefore_mono earlier

theorem readUpTo_mono (order : lo ≤ hi) : h.readUpTo lo ≤ h.readUpTo hi := by
  refine le_of_forall_lt fun i inside => ?_
  obtain ⟨b, here, low⟩ := lt_readUpTo.mp inside
  exact lt_readUpTo.mpr ⟨b, here, low.trans order⟩

end L1History

/-- How much of a history the tracker holds. -/
structure Progress where
  delayed : Nat
  batches : Nat

/-- Delayed messages are written from a position on, up to a new count: the batches that
read more than the position are dropped. -/
def Progress.write (h : L1History) (p : Progress) (pos count : Nat) : Progress :=
  ⟨count, min p.batches (h.readUpTo pos)⟩

/-- What the tracker records of a batch, apart from message counts. -/
def BatchMetadata.recorded (m : BatchMetadata) : B256 × Nat := (m.accumulator, m.delayedMessageCount)

def SequencerInboxBatch.recorded (b : SequencerInboxBatch) : B256 × Nat :=
  (b.afterInboxAcc, b.afterDelayedCount)

section
variable [Externals]

structure Follows (h : L1History) (t : InboxTracker) (p : Progress) : Prop where
  delayedLe : p.delayed ≤ h.delayed.length
  batchesLe : p.batches ≤ h.batches.length
  delayed : HoldsDelayed t.db (h.delayed.take p.delayed)
  ledger : ∃ l, Represents t l ∧
    l.batches.map BatchMetadata.recorded = (h.batches.take p.batches).map SequencerInboxBatch.recorded
  tidy : NothingPastCount t.db

variable {h : L1History} {t t' : InboxTracker} {p : Progress} {l : Ledger}

namespace Follows

theorem delayedCount (follows : Follows h t p) : InboxTracker.getDelayedCount t.db = .ok p.delayed := by
  rw [follows.delayed.count, List.length_take_of_le follows.delayedLe]

theorem length_ledger (follows : Follows h t p) (batches : l.batches.map BatchMetadata.recorded =
    (h.batches.take p.batches).map SequencerInboxBatch.recorded) : l.batches.length = p.batches := by
  have length := congrArg List.length batches
  rwa [List.length_map, List.length_map, List.length_take_of_le follows.batchesLe] at length

theorem batchCount (follows : Follows h t p) : t.db.count .sequencerBatchCount = some p.batches := by
  obtain ⟨l, represents, batches⟩ := follows.ledger
  rw [represents.batchCount, follows.length_ledger batches]

/-- The tracker's counts are the progress. -/
theorem unique {p' : Progress} (follows : Follows h t p) (follows' : Follows h t p') : p = p' := by
  obtain ⟨l, represents, batches⟩ := follows.ledger
  obtain ⟨l', represents', batches'⟩ := follows'.ledger
  have delayed := Except.ok.inj (follows.delayedCount.symm.trans follows'.delayedCount)
  have count := Option.some.inj (represents.batchCount.symm.trans represents'.batchCount)
  rw [follows.length_ledger batches, follows'.length_ledger batches'] at count
  obtain ⟨_, _⟩ := p
  obtain ⟨_, _⟩ := p'
  rw [Progress.mk.injEq]
  exact ⟨delayed, count⟩

theorem length_delayed (follows : Follows h t p) (represents : Represents t l) : l.delayed.length = p.delayed := by
  exact Except.ok.inj (represents.getDelayedCount.symm.trans follows.delayedCount)

theorem word (follows : Follows h t p) (represents : Represents t l) : l.delayed.length < 2 ^ 64 := by
  rw [follows.length_delayed represents]
  exact follows.delayedLe.trans_lt h.delayedCounted

omit [Externals] in
theorem length_batchesUpTo (batches : l.batches.map BatchMetadata.recorded =
    (h.batches.take p.batches).map SequencerInboxBatch.recorded) (count : Nat) :
    (l.batchesUpTo count).length = min p.batches (h.readUpTo count) := by
  have reads : l.batches.map (·.delayedMessageCount) = (h.batches.take p.batches).map (·.afterDelayedCount) := by
    simpa [List.map_map, Function.comp_def, BatchMetadata.recorded, SequencerInboxBatch.recorded] using
      congrArg (List.map Prod.snd) batches
  rw [Ledger.batchesUpTo, Ascending.length_upTo_congr reads, Ascending.length_upTo_take h.readsOrdered]
  rfl

/-- A write of delayed messages from a position of the history on. -/
theorem cut (follows : Follows h t p) {l' : Ledger} {pos count : Nat} (countLe : count ≤ h.delayed.length)
    (batches : l.batches.map BatchMetadata.recorded =
      (h.batches.take p.batches).map SequencerInboxBatch.recorded)
    (delayed' : HoldsDelayed t'.db (h.delayed.take count)) (represents' : Represents t' l')
    (batches' : l'.batches = l.batchesUpTo pos) (frame : Agree .streamer t.db t'.db) :
    Follows h t' (p.write h pos count) := by
  refine ⟨countLe, (Nat.min_le_left _ _).trans follows.batchesLe, delayed', ⟨l', represents', ?_⟩,
    follows.tidy.of_agree frame⟩
  rw [batches', Ledger.batchesUpTo, Ascending.upTo_eq_take, ← Ledger.batchesUpTo,
    length_batchesUpTo batches, List.map_take, batches,
    ← List.map_take, List.take_take, Progress.write, Nat.min_comm p.batches, Nat.min_assoc, Nat.min_self]

end Follows

namespace InboxReader

/-- A lookup of delayed messages: when it does not fail, it gives those of the range. -/
def Reports (h : L1History) (lookup : Nat → Nat → Except Error (List DelayedInboxMessage)) : Prop :=
  ∀ fromBlock toBlock messages, lookup fromBlock toBlock = .ok messages → delayedTuples messages =
    .ok (delayedInputs (h.delayedBefore fromBlock) (accumulator (h.delayed.take (h.delayedBefore fromBlock)))
      (h.messagesIn fromBlock toBlock))

/-- L1 answers about a history. The counts are answered, any other call may fail, and the
accumulators are left open. -/
structure Answers (h : L1History) (height : Nat) (l1 : L1Calls) : Prop where
  messageCount : l1.delayedBridge.getMessageCount height = .ok (h.delayedBefore (height + 1))
  batchCount : l1.sequencerInbox.getBatchCount height = .ok (h.batchesBefore (height + 1))
  messages : Reports h l1.delayedBridge.lookupMessagesInRange
  backfill : Reports h l1.backfill
  batches : ∀ fromBlock toBlock batches, l1.sequencerInbox.lookupBatchesInRange fromBlock toBlock =
    .ok batches → batches.Perm (h.batchesIn fromBlock toBlock)

omit [Externals] in
theorem length_delayedTuples {messages : List DelayedInboxMessage} {inputs : List DelayedInput}
    (serialized : delayedTuples messages = .ok inputs) : inputs.length = messages.length := by
  induction messages generalizing inputs with
  | nil =>
    cases serialized
    rfl
  | cons m later ih =>
    rw [delayedTuples] at serialized
    cases one : serializeIncomingL1MessageLegacy m.message with
    | error e =>
      rw [one] at serialized
      contradiction
    | ok bytes =>
      cases more : delayedTuples later with
      | error e =>
        rw [one, more] at serialized
        contradiction
      | ok rest =>
        rw [one, more] at serialized
        cases serialized
        rw [List.length_cons, List.length_cons, ih more]

theorem checkSequencer_ok (represents : Represents t l) {inbox : SequencerInbox} {height seen : Nat}
    (counted : inbox.getBatchCount height = .ok seen) :
    ∃ found t', checkSequencer inbox height t = .ok found t' := by
  rw [checkSequencer, counted]
  dsimp only
  rw [bind_ok represents.getBatchCount]
  split
  · rename_i some
    rcases represents.getBatchMetadata (min l.batches.length seen - 1) with ⟨m, t', _, found, _⟩ | ⟨missing, _⟩
    · have read : InboxTracker.getBatchAcc (min l.batches.length seen - 1) t = .ok m.accumulator t' := bind_ok found
      exact ⟨_, _, bind_ok read⟩
    · rw [List.getElem?_eq_none_iff] at missing
      omega
  · exact ⟨_, _, rfl⟩

end InboxReader

namespace Follows
open InboxReader

/-- The checks end well, and leave the messages and the batches up to L1's count. -/
theorem check (follows : Follows h t p) {height count : Nat} {l1 : L1Calls} (answers : Answers h height l1)
    (here : count = h.delayedBefore (height + 1)) :
    ∃ found sequencer t', InboxReader.check l1 height t = .ok (found, sequencer) t' ∧
      Follows h t' (p.write h count (min p.delayed count)) ∧
      found.missing = decide (p.delayed < count) ∧
      sequencer.missing = decide (min p.batches (h.readUpTo count) < h.batchesBefore (height + 1)) := by
  obtain ⟨l, represents, batches⟩ := follows.ledger
  have counted : (l1.delayedBridge.getMessageCount height).toOption.getD 0 = count := by
    rw [answers.messageCount, here]
    rfl
  obtain ⟨t₁, holds₁, first⟩ := checkDelayed_holds follows.delayed l1.delayedBridge height counted
  obtain ⟨found, first⟩ : ∃ found, checkDelayed l1.delayedBridge height t = .ok found t₁ := ⟨_, first⟩
  obtain ⟨represents₁, frame, missing⟩ := checkDelayed_represents represents (follows.word represents) counted first
  obtain ⟨sequencer, t₂, second⟩ := checkSequencer_ok represents₁ answers.batchCount
  have checked : InboxReader.check l1 height t = .ok (found, sequencer) t₂ := by
    rw [InboxReader.check, bind_ok first, bind_ok second]
    rfl
  obtain ⟨represents₂, frame₂, _, behind⟩ := check_represents represents (follows.word represents) counted checked
  have follows₂ : Follows h t₂ (p.write h count (min p.delayed count)) := by
    refine follows.cut ((Nat.min_le_left _ _).trans follows.delayedLe) batches ?_ represents₂ rfl frame₂
    rw [Nat.min_comm, ← List.take_take]
    exact (check_holds follows.delayed counted checked).1
  refine ⟨_, sequencer, t₂, checked, follows₂, ?_, ?_⟩
  · rw [missing, follows.length_delayed represents]
  · rw [behind _ answers.batchCount, length_batchesUpTo batches]

/-- Messages of the history are accepted where they continue what is stored. -/
theorem addDelayed (follows : Follows h t p) {pos count : Nat} (more : pos < count)
    (countLe : count ≤ h.delayed.length) :
    (p.delayed < pos ∧ ∃ e, InboxTracker.addDelayedMessages (delayedInputs pos (accumulator (h.delayed.take pos))
        ((h.delayed.take count).drop pos)) none t = .error e t) ∨
    (pos ≤ p.delayed ∧ ∃ t', InboxTracker.addDelayedMessages (delayedInputs pos (accumulator (h.delayed.take pos))
        ((h.delayed.take count).drop pos)) none t = .ok () t' ∧ Follows h t' (p.write h pos count)) := by
  generalize same : (h.delayed.take count).drop pos = ds
  obtain ⟨d, ds, rfl⟩ : ∃ d ds', ds = d :: ds' := by
    apply List.exists_cons_of_ne_nil
    intro none
    have length := congrArg List.length (same.trans none)
    rw [List.length_drop, List.length_take_of_le countLe, List.length_nil] at length
    omega
  have length : (h.delayed.take p.delayed).length = p.delayed := List.length_take_of_le follows.delayedLe
  by_cases inside : pos ≤ p.delayed
  · right
    have stored : (h.delayed.take p.delayed).take pos = h.delayed.take pos := by
      rw [List.take_take, Nat.min_eq_left inside]
    have whole : h.delayed.take pos ++ d :: ds = h.delayed.take count := by
      rw [← same, take_append_between more.le]
    obtain ⟨t', added, db⟩ := addDelayedMessages_holds follows.delayed (length ▸ inside) (List.cons_ne_nil d ds)
    have holds' := follows.delayed.replace (length ▸ inside) (d :: ds)
    rw [← db, stored, whole] at holds'
    rw [stored] at added
    obtain ⟨l, represents, batches⟩ := follows.ledger
    rcases addDelayedMessages_represents represents
      (delayedInputs pos (accumulator (h.delayed.take pos)) (d :: ds)) with
      ⟨e, failed⟩ | ⟨empty, _⟩ | ⟨pos', _, _, _, ds', t'', head, added', _, _, represents', frame⟩
    · cases added.symm.trans failed
    · cases empty
    · cases added.symm.trans added'
      cases head
      have word : pos + 1 < 2 ^ 64 := by
        have counted := h.delayedCounted
        omega
      exact ⟨inside, t', added,
        follows.cut countLe batches holds' represents' (Ledger.addDelayed_batches word _) frame⟩
  · left
    refine ⟨by omega, ?_⟩
    rcases addDelayedMessages_cases follows.delayed
      (delayedInputs pos (accumulator (h.delayed.take pos)) (d :: ds)) with
      failed | ⟨empty, _⟩ | ⟨pos', ds', inside', some, given⟩
    · exact failed
    · cases empty
    · obtain ⟨d', ds', rfl⟩ := List.exists_cons_of_ne_nil some
      simp only [delayedInputs, List.cons.injEq, Prod.mk.injEq] at given
      omega

/-- A lookup brings the messages of its range, when it does not fail, they continue what is
stored, and there are any. -/
theorem fetchDelayed (follows : Follows h t p) {lookup : Nat → Nat → Except Error (List DelayedInboxMessage)}
    (reports : Reports h lookup) (fromBlock toBlock : Nat) :
    ∃ n t', InboxReader.fetchDelayed lookup fromBlock toBlock t = .ok n t' ∧
      ((n = 0 ∧ t' = t ∧ ((∃ e, lookup fromBlock toBlock = .error e) ∨
          h.delayedBefore (toBlock + 1) ≤ h.delayedBefore fromBlock ∨ p.delayed < h.delayedBefore fromBlock)) ∨
        (0 < n ∧ h.delayedBefore fromBlock ≤ p.delayed ∧ h.delayedBefore fromBlock < h.delayedBefore (toBlock + 1) ∧
          Follows h t' (p.write h (h.delayedBefore fromBlock) (h.delayedBefore (toBlock + 1))))) := by
  rw [InboxReader.fetchDelayed]
  cases looked : lookup fromBlock toBlock with
  | error e => exact ⟨0, t, rfl, .inl ⟨rfl, rfl, .inl ⟨e, rfl⟩⟩⟩
  | ok messages =>
    have serialized := reports _ _ _ looked
    have length := length_delayedTuples serialized
    rw [L1History.messagesIn_eq] at serialized length
    rw [length_delayedInputs, List.length_drop, List.length_take_of_le L1History.delayedBefore_le] at length
    cases messages with
    | nil =>
      rw [List.length_nil] at length
      exact ⟨0, t, rfl, .inl ⟨rfl, rfl, .inr (.inl (by omega))⟩⟩
    | cons m later =>
      rw [List.length_cons] at length
      dsimp only
      rw [liftCall, serialized, bind_ok (onTracker_ok (lift_ok _ t))]
      have more : h.delayedBefore fromBlock < h.delayedBefore (toBlock + 1) := by omega
      rcases follows.addDelayed more L1History.delayedBefore_le with
        ⟨behind, e, failed⟩ | ⟨inside, t', added, follows'⟩
      · exact ⟨0, t, by rw [bind_ok (onTracker_ok (attempt_error failed))]; rfl, .inl ⟨rfl, rfl, .inr (.inr behind)⟩⟩
      · exact ⟨later.length + 1, t', by rw [bind_ok (onTracker_ok (attempt_ok added))]; rfl,
          .inr ⟨Nat.succ_pos _, inside, more, follows'⟩⟩

end Follows
end

section
variable [Externals]

end

/-- The batches emitted before a block are stored. -/
def HasBatches (h : L1History) (t : InboxTracker) (block : Nat) : Prop :=
  ∀ i b, h.batches[i]? = some b → b.parentChainBlockNumber < block →
    ∃ m, t.db.get .sequencerBatchMeta i = some m ∧ m.accumulator = b.afterInboxAcc

/-- The progress reaches up to a block. -/
structure Covers (h : L1History) (p : Progress) (block : Nat) : Prop where
  delayed : h.delayedBefore block ≤ p.delayed
  batches : h.batchesBefore block ≤ p.batches

theorem Covers.mono {h : L1History} {p : Progress} {lo hi : Nat} (covers : Covers h p hi) (order : lo ≤ hi) :
    Covers h p lo :=
  ⟨(h.delayedBefore_mono order).trans covers.delayed, (h.batchesBefore_mono order).trans covers.batches⟩

/-- Writing delayed messages drops no batch in front of the first one that is written. -/
theorem Covers.write {h : L1History} {p : Progress} {block pos count : Nat} (covers : Covers h p block)
    (posLe : h.delayedBefore block ≤ pos) (countLe : h.delayedBefore block ≤ count) :
    Covers h (p.write h pos count) block := by
  refine ⟨countLe, Nat.le_min.mpr ⟨covers.batches, ?_⟩⟩
  exact (h.batchesBefore_le_readUpTo block).trans (L1History.readUpTo_mono posLe)

section
variable [Externals] {h : L1History} {t t' u : InboxTracker} {p : Progress} {block : Nat}

theorem Follows.hasBatches_iff (follows : Follows h t p) :
    HasBatches h t block ↔ h.batchesBefore block ≤ p.batches := by
  obtain ⟨l, represents, batches⟩ := follows.ledger
  have entry (i : Nat) : (t.db.get .sequencerBatchMeta i).map BatchMetadata.recorded =
      ((h.batches.take p.batches)[i]?).map SequencerInboxBatch.recorded := by
    rw [represents.metas, ← List.getElem?_map, ← List.getElem?_map, batches]
  constructor
  · intro has
    by_contra short
    obtain ⟨b, here, earlier⟩ := L1History.lt_batchesBefore.mp (not_le.mp short)
    obtain ⟨m, stored, _⟩ := has _ b here earlier
    have none := entry p.batches
    rw [stored, List.getElem?_take_eq_none le_rfl] at none
    contradiction
  · intro reach i b here earlier
    have inside : i < p.batches := (L1History.lt_batchesBefore.mpr ⟨b, here, earlier⟩).trans_le reach
    have same := entry i
    rw [List.getElem?_take_of_lt inside, here] at same
    obtain ⟨m, stored, equal⟩ := Option.map_eq_some_iff.mp same
    exact ⟨m, stored, congrArg Prod.fst equal⟩

end

end NitroRs
