import NitroRs.Inbox.Rereads
import NitroRs.Primitives.LegacyFormat
import NitroRs.Reader.InboxReader

/-! The delayed accumulator as the bridge computes it, over the whole message in the
legacy format, and as the tracker does, over the hash of the message body. -/
namespace NitroRs
open KeyValue Outcome InboxReader
open Checked (wrappingAdd64)

section
variable [Externals]

/-- The `expect` of the source panics where this fails. -/
def DelayedInboxMessage.afterInboxAcc (m : DelayedInboxMessage) : Except Error B256 := do
  let ser ← serializeIncomingL1MessageLegacy m.message
  return hashAfter m.beforeInboxAcc ser

/-- What the two accumulators behind a message hash. -/
def accumulatorInputs (m : DelayedInboxMessage) : Set Bytes :=
  {x | x = m.beforeInboxAcc.val ++ (delayedMessageBodyHash m.message).val ∨
    ∃ ser, serializeIncomingL1MessageLegacy m.message = .ok ser ∧ x = m.beforeInboxAcc.val ++ ser}

/-- One is at least 145 bytes long, the other 64. -/
theorem afterInboxAcc_apart {m : DelayedInboxMessage} {requestId : B256}
    (present : m.message.header.requestId = some requestId)
    (free : Set.InjOn keccak256 (accumulatorInputs m)) :
    ∃ acc, m.afterInboxAcc = .ok acc ∧
      acc ≠ hashAfter m.beforeInboxAcc (delayedMessageBodyHash m.message).val := by
  have serialized := LegacyParts.serialize_ofMessage present
  refine ⟨hashAfter m.beforeInboxAcc (LegacyParts.ofMessage m.message requestId).bytes, ?_, ?_⟩
  · rw [DelayedInboxMessage.afterInboxAcc, serialized]
    rfl
  · intro same
    have bytes := free (.inr ⟨_, serialized, rfl⟩) (.inl rfl) same
    have lengths := congrArg List.length bytes
    rw [List.length_append, List.length_append, LegacyParts.bytes_length,
      (delayedMessageBodyHash m.message).property] at lengths
    omega

/-- The accumulator does not cover the gas cost, which the format drops. -/
theorem delayedMessageBodyHash_parsed {msg parsed : L1IncomingMessage} {ser : Bytes}
    (serialized : serializeIncomingL1MessageLegacy msg = .ok ser)
    (read : parseIncomingL1MessageLegacy ser = .ok parsed) :
    delayedMessageBodyHash parsed = delayedMessageBodyHash msg := by
  cases present : msg.header.requestId with
  | none =>
    rw [serializeIncomingL1MessageLegacy, present] at serialized
    contradiction
  | some requestId =>
    have round := parse_of_serialize present
    rw [serialized] at round
    cases read.symm.trans round
    rfl

omit [Externals] in
theorem delayedTuples_mem {ms : List DelayedInboxMessage} {inputs : List DelayedInput}
    (tuples : delayedTuples ms = .ok inputs) {m : DelayedInboxMessage} (member : m ∈ ms) :
    ∃ ser, serializeIncomingL1MessageLegacy m.message = .ok ser ∧
      (m.seqNum, m.beforeInboxAcc, ser) ∈ inputs := by
  induction ms generalizing inputs with
  | nil => contradiction
  | cons first later ih =>
    rw [delayedTuples] at tuples
    obtain ⟨bytes, serialized, tuples⟩ := except_bind_eq_ok.mp tuples
    obtain ⟨rest, others, tuples⟩ := except_bind_eq_ok.mp tuples
    cases tuples
    rcases List.mem_cons.mp member with rfl | behind
    · exact ⟨bytes, serialized, List.mem_cons_self⟩
    · obtain ⟨ser, serialized', inside⟩ := ih others behind
      exact ⟨ser, serialized', List.mem_cons_of_mem _ inside⟩

/-- The entries that a call writes, whatever the tables hold. -/
theorem get_delayedWrites_entry (db : Db) (pos : Nat) (acc : B256) (ds : List DelayedMessage) {k : Nat}
    {d : DelayedMessage} (here : ds[k]? = some d) :
    (db.write (delayedWrites db (delayedPuts pos acc ds) pos (pos + ds.length))).get
      .rlpDelayedMessage (pos + k) = some (((ds.take k).foldl accumulate acc).val ++ d.bytes) := by
  have short := (List.getElem?_eq_some_iff.mp here).1
  have entry (s : Db) : (s.write (delayedOps db (delayedPuts pos acc ds) (pos + ds.length))).get
      .rlpDelayedMessage (pos + k) = some (((ds.take k).foldl accumulate acc).val ++ d.bytes) := by
    have below : ¬ pos + ds.length ≤ pos + k := by omega
    simp only [delayedOps, Store.write_append, Store.write_cons, Store.write_nil,
      Store.get_apply_setCount]
    rw [Store.get_write_deleteFrom_of_ne _ _ _ (by decide),
      Store.get_write_deleteFrom_of_ne _ _ _ (by decide), Store.get_write_deleteFrom,
      if_neg (fun both => below both.1), get_write_delayedPuts, if_pos (by omega),
      Nat.add_sub_cancel_left, here]
    rfl
  unfold delayedWrites
  cases db.range .delayedSequenced (wrappingAdd64 pos 1) with
  | nil => exact entry db
  | cons first rest =>
    obtain ⟨_, batchSeqNum⟩ := first
    simp only [Store.write_append, Store.write_cons, Store.write_nil, Store.get_apply_setCount]
    rw [Store.get_write_deleteFrom_of_ne _ _ _ (by decide)]
    exact entry _

/-- What a call that succeeds was given and writes. -/
theorem addDelayedMessages_eq_ok {t t' : InboxTracker} {inputs : List DelayedInput}
    (added : InboxTracker.addDelayedMessages inputs none t = .ok () t') :
    ∃ pos acc ds, inputs = delayedInputs pos acc ds ∧ (ds ≠ [] → t'.db =
      t.db.write (delayedWrites t.db (delayedPuts pos acc ds) pos (pos + ds.length))) := by
  rcases addDelayedMessages_inputs t inputs with
    ⟨e, failed⟩ | rfl | ⟨pos, acc, ds, some, previous, rfl⟩
  · cases failed.symm.trans added
  · exact ⟨0, .zero, [], rfl, fun some => absurd rfl some⟩
  · refine ⟨pos, acc, ds, rfl, fun _ => ?_⟩
    obtain ⟨ops, t₁, set, db⟩ := TrackerUpdate.setDelayedCount_db (delayedPuts pos acc ds)
      (Nat.le_add_right pos ds.length) t
    cases added.symm.trans ((addDelayedMessages_continuing previous some).trans
      ((bind_ok set).trans (writeBatch_apply ops t₁)))
    exact db

/-- The tracker's accumulator behind a message that it has added, from any state. -/
theorem getDelayedAcc_of_added {t t' : InboxTracker} {ms : List DelayedInboxMessage}
    {inputs : List DelayedInput} (tuples : delayedTuples ms = .ok inputs)
    (added : InboxTracker.addDelayedMessages inputs none t = .ok () t') {m : DelayedInboxMessage}
    (member : m ∈ ms) : InboxTracker.getDelayedAcc t'.db m.seqNum =
      .ok (hashAfter m.beforeInboxAcc (delayedMessageBodyHash m.message).val) := by
  obtain ⟨ser, serialized, inside⟩ := delayedTuples_mem tuples member
  obtain ⟨pos, acc, ds, rfl, db⟩ := addDelayedMessages_eq_ok added
  obtain ⟨k, here⟩ := List.mem_iff_getElem?.mp inside
  rw [getElem_delayedInputs, Option.map_eq_some_iff] at here
  obtain ⟨d, here, fields⟩ := here
  simp only [Prod.mk.injEq] at fields
  obtain ⟨number, before, rfl⟩ := fields
  have some : ds ≠ [] := List.ne_nil_of_mem (List.mem_of_getElem? here)
  rw [InboxTracker.getDelayedAcc, db some, ← number, get_delayedWrites_entry t.db pos acc ds here]
  simp only [InboxTracker.accumulatorAfter, splitEntry_append]
  rw [← before, ← delayedMessageBodyHash_parsed serialized d.parsed]
  rfl

/-- The bridge's accumulator is never the one that the tracker returns for a message that it
has added. -/
theorem after_inbox_acc_never_agrees (m : DelayedInboxMessage)
    (present : m.message.header.requestId.isSome)
    (free : Set.InjOn keccak256 (accumulatorInputs m)) : ∃ acc tracked,
      m.afterInboxAcc = .ok acc ∧ acc ≠ tracked ∧
      tracked = hashAfter m.beforeInboxAcc (delayedMessageBodyHash m.message).val ∧
      ∀ t t' ms inputs, m ∈ ms → delayedTuples ms = .ok inputs →
        InboxTracker.addDelayedMessages inputs none t = .ok () t' →
        InboxTracker.getDelayedAcc t'.db m.seqNum = .ok tracked := by
  obtain ⟨requestId, present⟩ := Option.isSome_iff_exists.mp present
  obtain ⟨acc, after, apart⟩ := afterInboxAcc_apart present free
  exact ⟨acc, _, after, apart, rfl, fun t t' ms inputs member tuples added =>
    getDelayedAcc_of_added tuples added member⟩

end

section Samples
open Codecs

/-- The first message of the inbox, with zeros in every field. -/
def zeroInboxMessage : DelayedInboxMessage := ⟨0, .zero, zeroMessage.msg⟩

def zeroInboxInputs : List Bytes :=
  [List.replicate 32 0 ++ (delayedMessageBodyHash zeroMessage.msg).val, List.replicate 145 0]

theorem zeroInboxMessage_free : Set.InjOn keccak256 (accumulatorInputs zeroInboxMessage) := by
  have only {x : Bytes} (used : x ∈ accumulatorInputs zeroInboxMessage) : x ∈ zeroInboxInputs := by
    rcases used with rfl | ⟨ser, serialized, rfl⟩
    · exact List.mem_cons_self
    · have zeros : serializeIncomingL1MessageLegacy zeroMessage.msg = .ok (List.replicate 113 0) := by
        decide +kernel
      cases zeros.symm.trans serialized
      exact List.mem_cons_of_mem _ List.mem_cons_self
  have distinct : ∀ x ∈ zeroInboxInputs, ∀ y ∈ zeroInboxInputs,
      keccak256 x = keccak256 y → x = y := by decide +kernel
  exact fun x first y second same => distinct x (only first) y (only second) same

/-- The call that adds it succeeds, and the accumulators differ. -/
theorem zero_message_added : ∃ t' acc tracked, InboxTracker.addDelayedMessages
      [(0, .zero, List.replicate 113 0)] none initialTracker = .ok () t' ∧
    zeroInboxMessage.afterInboxAcc = .ok acc ∧ acc ≠ tracked ∧
    InboxTracker.getDelayedAcc t'.db 0 = .ok tracked := by
  obtain ⟨acc, tracked, after, apart, _, kept⟩ :=
    after_inbox_acc_never_agrees zeroInboxMessage rfl zeroInboxMessage_free
  have done : isOk (InboxTracker.addDelayedMessages [(0, .zero, List.replicate 113 0)] none
    initialTracker) = true := by decide +kernel
  obtain ⟨_, added⟩ := eq_ok_of_isOk done
  exact ⟨_, acc, tracked, added, after, apart, kept _ _ [zeroInboxMessage] _ List.mem_cons_self
    (by decide +kernel) added⟩

/-- The accumulators of that message, with a hash that tells its inputs apart. -/
theorem zero_message_accumulators : Set.InjOn keccak256 (accumulatorInputs zeroInboxMessage) ∧
    zeroInboxMessage.afterInboxAcc ≠
      .ok (hashAfter zeroInboxMessage.beforeInboxAcc
        (delayedMessageBodyHash zeroInboxMessage.message).val) :=
  ⟨zeroInboxMessage_free, by decide +kernel⟩

end Samples

end NitroRs
