import NitroRs.Inbox.DelayedInbox

/-! Delayed messages that the reader passes again. They are accepted, but the call
takes its cut from where they end and drops the batches that read past their start. -/
namespace NitroRs
open KeyValue Outcome
open Checked (wrappingAdd64)

/-- The stored messages from `i` up to `j`, with the accumulators stored before them. -/
structure Repeats (db : Db) (i j : Nat) (inputs : List DelayedInput) : Prop where
  length : inputs.length = j - i
  stored : ∀ k input, inputs[k]? = some input → input.1 = i + k ∧
    db.get .rlpDelayedMessage (i + k) = some (input.2.1.val ++ input.2.2)

section
variable [Externals] {db : Db} {t : InboxTracker} {delayed : List DelayedMessage} {i j : Nat}
  {inputs : List DelayedInput}

theorem getElem_delayedInputs (pos : Nat) (acc : B256) (ds : List DelayedMessage) (k : Nat) :
    (delayedInputs pos acc ds)[k]? =
      (ds[k]?).map fun d => (pos + k, (ds.take k).foldl accumulate acc, d.bytes) := by
  induction ds generalizing pos acc k with
  | nil => rfl
  | cons d ds ih =>
    cases k with
    | zero => rfl
    | succ k =>
      rw [delayedInputs, List.getElem?_cons_succ, ih, List.getElem?_cons_succ, List.take_succ_cons,
        List.foldl_cons, Nat.add_right_comm, Nat.add_assoc]

theorem Repeats.eq_delayedInputs (holds : HoldsDelayed db delayed) (bound : j ≤ delayed.length)
    (repeats : Repeats db i j inputs) :
    inputs = delayedInputs i (accumulator (delayed.take i)) ((delayed.drop i).take (j - i)) := by
  apply List.ext_getElem?
  intro k
  rw [getElem_delayedInputs, List.getElem?_take]
  by_cases inside : k < j - i
  · obtain ⟨⟨number, acc, bytes⟩, given⟩ : ∃ input, inputs[k]? = some input :=
      ⟨_, List.getElem?_eq_getElem (by rw [repeats.length]; exact inside)⟩
    have here : delayed[i + k]? = some delayed[i + k] := List.getElem?_eq_getElem (by omega)
    obtain ⟨rfl, entry⟩ := repeats.stored k _ given
    rw [holds.entries, Ledger.entry, Ledger.ofDelayed, here, Option.map_some] at entry
    obtain ⟨sameAcc, rfl⟩ := List.append_inj (Option.some.inj entry)
      ((accumulator _).property.trans acc.property.symm)
    have split : delayed.take (i + k) = delayed.take i ++ (delayed.drop i).take k := List.take_add ..
    have front : ((delayed.drop i).take (j - i)).take k = (delayed.drop i).take k := by
      rw [List.take_take, Nat.min_eq_left inside.le]
    obtain rfl := Subtype.ext sameAcc
    rw [given, if_pos inside, List.getElem?_drop, here, Option.map_some, front, split, accumulator,
      accumulator, List.foldl_append]
  · rw [if_neg inside, Option.map_none, List.getElem?_eq_none]
    rw [repeats.length]
    omega

theorem get_delayedWrites_index (db : Db) (pos new : Nat) (acc : B256) (ds : List DelayedMessage) (k : Nat) :
    (db.write (delayedWrites db (delayedPuts pos acc ds) pos new)).get .delayedSequenced k =
      if wrappingAdd64 pos 1 ≤ k then none else db.get .delayedSequenced k := by
  have off : ∀ op ∈ delayedOps db (delayedPuts pos acc ds) new, op.place ≠ .table .delayedSequenced := by
    intro op member same
    have place := delayedOps_place db pos new acc ds op member
    rw [same] at place
    simp at place
  unfold delayedWrites
  cases range : db.range .delayedSequenced (wrappingAdd64 pos 1) with
  | nil =>
    dsimp only
    rw [db.get_write_of_untouched off]
    split
    · rename_i past
      exact Store.range_eq_nil.mp range k past
    · rfl
  | cons entry rest =>
    obtain ⟨_, batchSeqNum⟩ := entry
    dsimp only
    rw [Store.write_append, Store.write_append, Store.write_append, Store.write_cons, Store.write_nil,
      Store.get_apply_setCount]
    apply Store.get_write_deleteFrom_of_eq
    intro k
    rw [Store.get_write_of_untouched _ off, Store.get_write_deleteFrom_of_ne _ _ _ (by decide)]

/-- Without a batch to drop, writing the stored messages again changes nothing. -/
theorem rewrite_same (holds : HoldsDelayed db delayed) {ds : List DelayedMessage}
    (inside : i ≤ delayed.length) (same : delayed.take i ++ ds = delayed)
    (index : ∀ k b, db.get .delayedSequenced k = some b → k < wrappingAdd64 i 1) :
    db.write (delayedWrites db (delayedPuts i (accumulator (delayed.take i)) ds) i (i + ds.length)) = db := by
  have after := holds.replace inside ds
  rw [same] at after
  have none : db.range .delayedSequenced (wrappingAdd64 i 1) = [] := by
    apply Store.range_eq_nil.mpr
    intro k past
    cases found : db.get .delayedSequenced k with
    | none => rfl
    | some b => exact absurd (index k b found) (by omega)
  simp only [delayedWrites, none] at after ⊢
  have places := delayedOps_place db i (i + ds.length) (accumulator (delayed.take i)) ds
  apply Store.ext
  · intro c
    by_cases counter : c = .delayedMessageCount
    · rw [counter, after.delayedCount, holds.delayedCount]
    · apply db.count_write_of_untouched
      intro op member place
      have place' := places op member
      simp [place, counter] at place'
  · intro table k
    by_cases rlp : table = .rlpDelayedMessage
    · rw [rlp, after.entries, holds.entries]
    by_cases legacy : table = .legacyDelayedMessage
    · rw [legacy, after.noLegacy, holds.noLegacy]
    by_cases parent : table = .parentChainBlockNumber
    · rw [parent, after.noParentBlocks, holds.noParentBlocks]
    · apply congrFun (db.get_write_of_untouched _)
      intro op member place
      have place' := places op member
      simp [place, rlp, legacy, parent] at place'

/-- Stored messages are always accepted again; the database stays as it was exactly when they
reach to the last one and no batch is indexed from the key behind their first on. -/
theorem reread_unchanged_iff (reached : DelayedReachable t) {n : Nat}
    (counted : InboxTracker.getDelayedCount t.db = .ok n) (order : i < j) (bound : j ≤ n)
    (repeats : Repeats t.db i j inputs) :
    ∃ t', InboxTracker.addDelayedMessages inputs none t = .ok () t' ∧
      (t'.db = t.db ↔ j = n ∧ ∀ k b, t.db.get .delayedSequenced k = some b → k < wrappingAdd64 i 1) := by
  obtain ⟨delayed, holds⟩ := reached.holds
  cases counted.symm.trans holds.count
  have inside : i ≤ delayed.length := by omega
  have length : ((delayed.drop i).take (j - i)).length = j - i := by
    rw [List.length_take_of_le]
    rw [List.length_drop]
    omega
  have some : (delayed.drop i).take (j - i) ≠ [] := by
    intro empty
    rw [empty, List.length_nil] at length
    omega
  have joined : delayed.take i ++ (delayed.drop i).take (j - i) = delayed.take j := by
    rw [← List.take_add, show i + (j - i) = j by omega]
  obtain ⟨t', added, db⟩ := addDelayedMessages_holds holds inside some
  rw [← repeats.eq_delayedInputs holds bound] at added
  refine ⟨t', added, ?_, ?_⟩
  · intro same
    have after := holds.replace inside ((delayed.drop i).take (j - i))
    rw [← db, joined, same] at after
    refine ⟨?_, fun k b found => ?_⟩
    · have count := after.count.symm.trans holds.count
      rw [Except.ok.injEq, List.length_take_of_le bound] at count
      exact count
    · by_contra past
      have index := get_delayedWrites_index t.db i (i + ((delayed.drop i).take (j - i)).length)
        (accumulator (delayed.take i)) ((delayed.drop i).take (j - i)) k
      rw [← db, same, if_pos (not_lt.mp past), found] at index
      contradiction
  · rintro ⟨rfl, index⟩
    rw [db]
    exact rewrite_same holds inside (by rw [joined, List.take_length]) index

end

section Samples
open Codecs

/-- A message with zeros in every field. -/
def zeroMessage : DelayedMessage where
  bytes := List.replicate 113 0
  msg := ⟨⟨0, .zero, 0, 0, some .zero, 0⟩, [], none⟩
  parsed := by decide +kernel

/-- A tracker that has added two of them. -/
def twoDelayed : InboxTracker := final (InboxTracker.addDelayedMessages
  (delayedInputs 0 .zero [zeroMessage, zeroMessage]) none initialTracker)

/-- The second one as it is stored. -/
def secondAgain : DelayedInput := (1, accumulate .zero zeroMessage, zeroMessage.bytes)

theorem twoDelayed_reachable : DelayedReachable twoDelayed :=
  .step (.init (.refl _ _)) (.addDelayedMessages _)

theorem twoDelayed_count : InboxTracker.getDelayedCount twoDelayed.db = .ok 2 := by decide +kernel

/-- The last message again, with no batch in the index. -/
theorem last_message_again : Repeats twoDelayed.db 1 2 [secondAgain] ∧
    ∃ t', InboxTracker.addDelayedMessages [secondAgain] none twoDelayed = .ok () t' ∧ t'.db = twoDelayed.db := by
  have repeats : Repeats twoDelayed.db 1 2 [secondAgain] := by
    refine ⟨rfl, fun k input here => ?_⟩
    match k with
    | 0 =>
      cases here
      exact ⟨rfl, by decide +kernel⟩
  obtain ⟨t', added, same⟩ := reread_unchanged_iff twoDelayed_reachable twoDelayed_count Nat.one_lt_two le_rfl repeats
  have unindexed : twoDelayed.db.range .delayedSequenced 0 = [] := by decide +kernel
  refine ⟨repeats, t', added, same.mpr ⟨rfl, fun k b found => ?_⟩⟩
  cases (Store.range_eq_nil.mp unindexed k k.zero_le).symm.trans found

/-- The first message again: the call succeeds and drops the second one. -/
theorem first_message_again : DelayedReachable twoDelayed ∧
    InboxTracker.getDelayedCount twoDelayed.db = .ok 2 ∧
    Repeats twoDelayed.db 0 1 [(0, .zero, zeroMessage.bytes)] ∧
    ¬ ∃ t', InboxTracker.addDelayedMessages [(0, .zero, zeroMessage.bytes)] none twoDelayed = .ok () t' ∧
      t'.db = twoDelayed.db := by
  refine ⟨twoDelayed_reachable, twoDelayed_count, ⟨rfl, fun k input here => ?_⟩, ?_⟩
  · match k with
    | 0 =>
      cases here
      exact ⟨rfl, by decide +kernel⟩
  · rintro ⟨t', added, same⟩
    have cut : InboxTracker.getDelayedCount (final (InboxTracker.addDelayedMessages
        [(0, .zero, zeroMessage.bytes)] none twoDelayed)).db = .ok 1 := by decide +kernel
    rw [added, final_ok, same, twoDelayed_count] at cut
    cases cut

end Samples
end NitroRs
