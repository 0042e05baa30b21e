import NitroRs.Reader.InboxReader
import NitroRs.Inbox.DelayedBinding

/-! What the checking phase finds. When it finds nothing missing, the tracker holds L1's
delayed messages: one count and one accumulator stand for all of them. -/
namespace NitroRs
open KeyValue Outcome

/-- L1's delayed inbox at a height. -/
structure Serves [Externals] (bridge : DelayedBridge) (height : Nat) (msgs : List L1IncomingMessage) :
    Prop where
  count : bridge.getMessageCount height = .ok msgs.length
  accumulators : ∀ i < msgs.length,
    bridge.getAccumulator i height = .ok (delayedChain (msgs.take (i + 1)))

theorem Serves.reported [Externals] {bridge : DelayedBridge} {height : Nat} {msgs : List L1IncomingMessage}
    (serves : Serves bridge height msgs) : (bridge.getMessageCount height).toOption.getD 0 = msgs.length := by
  rw [serves.count]
  rfl

namespace InboxReader

theorem getBatchAcc_db (i : Nat) (t : InboxTracker) : (final (InboxTracker.getBatchAcc i t)).db = t.db := by
  unfold InboxTracker.getBatchAcc
  rcases InboxTracker.getBatchMetadata_cases i t with ⟨m, cache, _, found, _⟩ | ⟨_, missing⟩
  · rw [bind_ok found]
    rfl
  · rw [bind_error missing, final_error]

theorem getBatchCount_db (t : InboxTracker) :
    (final (InboxTracker.getBatchCount t)).db = InboxTracker.repaired t.db := by
  rcases InboxTracker.getBatchCount_spec t with ⟨n, _, counted⟩ | ⟨absent, missing⟩
  · rw [counted, final_ok]
  · rw [missing, final_error, InboxTracker.repaired, absent]

/-- The sequencer check writes nothing but a repair of the batch count. -/
theorem checkSequencer_db (inbox : SequencerInbox) (height : Nat) (t : InboxTracker) :
    (final (checkSequencer inbox height t)).db = InboxTracker.repaired t.db := by
  unfold checkSequencer
  cases inbox.getBatchCount height with
  | ok seen =>
    refine InboxTracker.db_bind (getBatchCount_db t) fun count t' same => ?_
    dsimp only
    split
    · refine InboxTracker.db_bind ((getBatchAcc_db _ t').trans same) fun _ _ same => same
    · exact same
  | error e => exact InboxTracker.db_bind (getBatchCount_db t) fun _ _ same => same

section
variable [Externals] {t t' : InboxTracker} {delayed : List DelayedMessage}

/-- The delayed check on a list of messages. -/
theorem checkDelayed_holds (holds : HoldsDelayed t.db delayed) (bridge : DelayedBridge) (height : Nat)
    {count : Nat} (counted : (bridge.getMessageCount height).toOption.getD 0 = count) :
    ∃ t', HoldsDelayed t'.db (delayed.take count) ∧
      checkDelayed bridge height t = .ok
        { reorging := 0 < min delayed.length count ∧ accumulator (delayed.take (min delayed.length count)) ≠
            (bridge.getAccumulator (min delayed.length count - 1) height).toOption.getD .zero
          missing := delayed.length < count } t' := by
  have cut : ∃ t', reorgToL1 delayed.length count t = .ok () t' ∧ HoldsDelayed t'.db (delayed.take count) := by
    unfold reorgToL1
    by_cases shorter : count < delayed.length
    · rw [if_pos shorter]
      exact reorgDelayedTo_holds holds shorter.le
    · rw [if_neg shorter]
      exact ⟨t, rfl, by rwa [List.take_of_length_le (by omega)]⟩
  obtain ⟨t', reorged, holds'⟩ := cut
  refine ⟨t', holds', ?_⟩
  unfold checkDelayed
  rw [counted, bind_read, holds.count, bind_lift_ok, bind_ok reorged]
  by_cases some : 0 < min delayed.length count
  · have last : InboxTracker.getDelayedAcc t'.db (min delayed.length count - 1) =
        .ok (accumulator (delayed.take (min delayed.length count))) := by
      rw [holds'.getDelayedAcc, List.length_take, if_pos (by omega), Nat.sub_add_cancel some,
        List.take_take, Nat.min_eq_left (Nat.min_le_right _ _)]
    dsimp only
    rw [if_pos some, bind_read, last, bind_lift_ok]
    simp only [some, true_and]
    rfl
  · dsimp only
    rw [if_neg some]
    simp only [some, false_and]
    rfl

/-- The whole checking phase, with the sequencer side left open. -/
theorem check_holds (holds : HoldsDelayed t.db delayed) {l1 : L1Calls} {height count : Nat}
    (counted : (l1.delayedBridge.getMessageCount height).toOption.getD 0 = count)
    {found : DelayedCheck} {sequencer : SequencerCheck}
    (checked : check l1 height t = .ok (found, sequencer) t') :
    HoldsDelayed t'.db (delayed.take count) ∧ found =
      { reorging := 0 < min delayed.length count ∧ accumulator (delayed.take (min delayed.length count)) ≠
          (l1.delayedBridge.getAccumulator (min delayed.length count - 1) height).toOption.getD .zero
        missing := delayed.length < count } := by
  obtain ⟨t₁, holds₁, first⟩ := checkDelayed_holds holds l1.delayedBridge height counted
  unfold check at checked
  rw [bind_ok first] at checked
  obtain ⟨sequencer', t₂, second, same⟩ := bind_eq_ok.mp checked
  cases same
  refine ⟨?_, rfl⟩
  have db := checkSequencer_db l1.sequencerInbox height t₁
  rw [second, final_ok] at db
  rw [db]
  exact holds₁.repaired

/-- A reader that finds nothing missing has L1's delayed messages. -/
theorem caught_up_holds_l1 {l1 : L1Calls} {height : Nat} {msgs : List L1IncomingMessage}
    (reached : DelayedReachable t) (serves : Serves l1.delayedBridge height msgs)
    (free : Set.InjOn keccak256 (HashedBy t.db ∪ hashInputs msgs))
    {found : DelayedCheck} {sequencer : SequencerCheck}
    (checked : check l1 height t = .ok (found, sequencer) t')
    (caughtUp : nothingMissing found sequencer = true) :
    InboxTracker.getDelayedCount t'.db = .ok msgs.length ∧
      ∀ i m, msgs[i]? = some m → InboxTracker.getDelayedMessage t'.db i = .ok (covered m) := by
  obtain ⟨delayed, holds⟩ := reached.holds
  obtain ⟨holds', rfl⟩ := check_holds holds serves.reported checked
  simp only [nothingMissing, Bool.and_eq_true, Bool.not_eq_true', decide_eq_false_iff_not] at caughtUp
  obtain ⟨⟨⟨enough, agrees⟩, _⟩, _⟩ := caughtUp
  have length : (delayed.take msgs.length).length = msgs.length :=
    List.length_take_of_le (by omega)
  have chain : delayedChain ((delayed.take msgs.length).map DelayedMessage.msg) = delayedChain msgs := by
    cases msgs with
    | nil => rfl
    | cons m msgs =>
      have last := serves.accumulators msgs.length (by simp)
      rw [Nat.min_eq_right (by omega), List.length_cons, Nat.add_sub_cancel, last] at agrees
      have equal := not_not.mp fun apart => agrees ⟨Nat.succ_pos _, apart⟩
      rw [← accumulator_eq_chain, List.length_cons, equal]
      exact congrArg delayedChain (List.take_length (l := m :: msgs))
  have free' := free.mono (Set.union_subset_union_left _ (holds.hashInputs msgs.length))
  have equal := delayedChain_binds (by rw [List.length_map, length]) free' chain
  refine ⟨by rw [holds'.count, length], fun i m here => ?_⟩
  have same := congrArg (fun msgs => msgs[i]?) equal
  simp only [List.map_map, List.getElem?_map, here, Option.map_some] at same
  obtain ⟨d, stored, equal⟩ := Option.map_eq_some_iff.mp same
  rw [holds'.getDelayedMessage stored, ← equal, Function.comp_apply, DelayedMessage.covered_msg]

end

section Samples
open Codecs

/-- L1 with one delayed message of zeros and no batches. -/
def oneMessageL1 : L1Calls where
  delayedBridge := {
    getMessageCount := fun _ => .ok 1
    getAccumulator := fun _ _ => .ok (delayedChain [zeroMessage.msg])
    lookupMessagesInRange := fun _ _ => .ok [] }
  backfill := fun _ _ => .ok []
  sequencerInbox := {
    getBatchCount := fun _ => .ok 0
    getAccumulator := fun _ _ => .error .rpc
    lookupBatchesInRange := fun _ _ => .ok []
    getSequencerMessageBytesInBlock := fun _ _ _ _ => .error .rpc
    getTxInput := fun _ => .error .rpc }

theorem oneMessageL1_serves : Serves oneMessageL1.delayedBridge 0 [zeroMessage.msg] where
  count := rfl
  accumulators i inside := by
    obtain rfl : i = 0 := Nat.lt_one_iff.mp inside
    rfl

theorem twoDelayed_holds : HoldsDelayed twoDelayed.db [zeroMessage, zeroMessage] :=
  initialTracker_holds_after (List.cons_ne_nil _ _)

theorem mem_twoZeroInputs {x : Bytes} (used : x ∈ HashedBy twoDelayed.db ∪ hashInputs [zeroMessage.msg]) :
    x ∈ inputsOf [zeroMessage, zeroMessage] := by
  rcases used with stored | ⟨msg, member, part⟩ | ⟨p, member, rfl⟩
  · exact mem_inputsOf (n := 2) twoDelayed_holds stored
  · cases List.mem_singleton.mp member
    rcases part with rfl | rfl
    · exact List.mem_cons_self
    · exact List.mem_cons_of_mem _ List.mem_cons_self
  · cases List.mem_singleton.mp member
    exact List.mem_cons_of_mem _ (List.mem_cons_of_mem _ List.mem_cons_self)

/-- Whether a checking phase ends with nothing missing. -/
def endsCaughtUp : EStateM.Result Error InboxTracker (DelayedCheck × SequencerCheck) → Bool
  | .ok (found, sequencer) _ => nothingMissing found sequencer
  | .error .. => false

/-- The check drops the second message, which L1 does not have, and finds nothing missing. -/
theorem caught_up_after_reorg : ∃ t', (∃ found sequencer,
      check oneMessageL1 0 twoDelayed = .ok (found, sequencer) t' ∧ nothingMissing found sequencer = true) ∧
    InboxTracker.getDelayedCount t'.db = .ok 1 ∧
      ∀ i m, [zeroMessage.msg][i]? = some m → InboxTracker.getDelayedMessage t'.db i = .ok (covered m) := by
  have ran : endsCaughtUp (check oneMessageL1 0 twoDelayed) = true := by decide +kernel
  obtain ⟨found, sequencer, t', checked, caughtUp⟩ : ∃ found sequencer t',
      check oneMessageL1 0 twoDelayed = .ok (found, sequencer) t' ∧
        nothingMissing found sequencer = true := by
    generalize check oneMessageL1 0 twoDelayed = result at ran
    cases result with
    | ok flags t' => exact ⟨flags.1, flags.2, t', rfl, ran⟩
    | error e t' => contradiction
  have distinct : ∀ x ∈ inputsOf [zeroMessage, zeroMessage], ∀ y ∈ inputsOf [zeroMessage, zeroMessage],
      keccak256 x = keccak256 y → x = y := by decide +kernel
  exact ⟨t', ⟨found, sequencer, checked, caughtUp⟩,
    caught_up_holds_l1 twoDelayed_reachable oneMessageL1_serves
      (fun x left y right same => distinct x (mem_twoZeroInputs left) y (mem_twoZeroInputs right) same)
      checked caughtUp⟩

end Samples

end InboxReader
end NitroRs
