import NitroRs.Inbox.Rereads
import NitroRs.Lib.HashChain
import NitroRs.Primitives.LegacyFormat

/-! The last delayed accumulator stands for the whole delayed history, as far as
keccak256 does not collide on what the accumulators hash. -/
namespace NitroRs
open KeyValue Outcome

section
variable [Externals]

/-- The bytes that `delayed_message_body_hash` hashes. -/
def delayedMessageBody (msg : L1IncomingMessage) : Bytes :=
  msg.header.kind :: msg.header.poster.val ++ u64Be8 msg.header.blockNumber ++
    u64Be8 msg.header.timestamp ++ (msg.header.requestId.map Subtype.val).getD [] ++
    U256.toBeBytes msg.header.l1BaseFee ++ (keccak256 msg.l2msg).val

theorem delayedMessageBodyHash_eq (msg : L1IncomingMessage) :
    delayedMessageBodyHash msg = keccak256 (delayedMessageBody msg) := rfl

/-- Every field has a fixed width but the request id, and that one is there or not. -/
theorem delayedMessageBody_injective {a b : L1IncomingMessage}
    (same : delayedMessageBody a = delayedMessageBody b) :
    a.header = b.header ∧ keccak256 a.l2msg = keccak256 b.l2msg := by
  obtain ⟨⟨kind, poster, block, time, req, fee⟩, l2msg, cost⟩ := a
  obtain ⟨⟨kind', poster', block', time', req', fee'⟩, l2msg', cost'⟩ := b
  simp only [delayedMessageBody] at same
  obtain ⟨same, hash⟩ := List.append_inj' same
    ((keccak256 l2msg).property.trans (keccak256 l2msg').property.symm)
  obtain ⟨same, feeBytes⟩ := List.append_inj' same ((toBeBytes_length fee).trans (toBeBytes_length fee').symm)
  have fixed (k : UInt8) (p : Address) (m n : UInt64) :
      (k :: p.val ++ u64Be8 m ++ u64Be8 n).length = 37 := by
    simp only [List.cons_append, List.length_cons, List.length_append, u64Be8_length, p.property]
  obtain ⟨same, reqBytes⟩ := List.append_inj same ((fixed _ _ _ _).trans (fixed _ _ _ _).symm)
  obtain ⟨same, timeBytes⟩ := List.append_inj' same ((u64Be8_length time).trans (u64Be8_length time').symm)
  obtain ⟨same, blockBytes⟩ := List.append_inj' same ((u64Be8_length block).trans (u64Be8_length block').symm)
  obtain ⟨rfl, posterBytes⟩ := List.cons.inj same
  obtain rfl := Subtype.ext posterBytes
  obtain rfl := u64Be8_injective blockBytes
  obtain rfl := u64Be8_injective timeBytes
  obtain rfl := toBeBytes_injective feeBytes
  have sameReq : req = req' := by
    cases req with
    | none =>
      cases req' with
      | none => rfl
      | some r => exact absurd (congrArg List.length reqBytes) (by simp [r.property])
    | some r =>
      cases req' with
      | none => exact absurd (congrArg List.length reqBytes) (by simp [r.property])
      | some r' => exact congrArg some (Subtype.ext reqBytes)
  subst sameReq
  exact ⟨rfl, Subtype.ext hash⟩

/-- One link of the delayed accumulator. -/
def delayedLink (acc bodyHash : B256) : B256 := hashAfter acc bodyHash.val

/-- The accumulator after a list of messages. -/
def delayedChain (msgs : List L1IncomingMessage) : B256 :=
  (msgs.map delayedMessageBodyHash).foldl delayedLink .zero

/-- What the accumulators of a list of messages hash. -/
def hashInputs (msgs : List L1IncomingMessage) : Set Bytes :=
  {x | (∃ msg ∈ msgs, x = msg.l2msg ∨ x = delayedMessageBody msg) ∨
    ∃ p ∈ HashChain.uses delayedLink .zero (msgs.map delayedMessageBodyHash), x = p.1.val ++ p.2.val}

/-- What the accumulator covers of a message: everything but the batch gas cost. -/
def covered (msg : L1IncomingMessage) : L1IncomingMessage := { msg with batchGasCost := none }

theorem delayedMessageBodyHash_binds {a b : L1IncomingMessage} {used : Set Bytes}
    (free : Set.InjOn keccak256 used) (left : a.l2msg ∈ used ∧ delayedMessageBody a ∈ used)
    (right : b.l2msg ∈ used ∧ delayedMessageBody b ∈ used)
    (same : delayedMessageBodyHash a = delayedMessageBodyHash b) : covered a = covered b := by
  rw [delayedMessageBodyHash_eq, delayedMessageBodyHash_eq] at same
  obtain ⟨header, hash⟩ := delayedMessageBody_injective (free left.2 right.2 same)
  have l2msg := free left.1 right.1 hash
  simp only [covered, header, l2msg]

/-- Two lists of one length with one last accumulator. -/
theorem delayedChain_binds {as bs : List L1IncomingMessage} (length : as.length = bs.length)
    (free : Set.InjOn keccak256 (hashInputs as ∪ hashInputs bs))
    (same : delayedChain as = delayedChain bs) : as.map covered = bs.map covered := by
  have links : Set.InjOn (Function.uncurry delayedLink)
      {p | p ∈ HashChain.uses delayedLink .zero (as.map delayedMessageBodyHash) ∨
        p ∈ HashChain.uses delayedLink .zero (bs.map delayedMessageBodyHash)} := by
    have hashed {p : B256 × B256} (used : p ∈ HashChain.uses delayedLink .zero (as.map delayedMessageBodyHash) ∨
        p ∈ HashChain.uses delayedLink .zero (bs.map delayedMessageBodyHash)) :
        p.1.val ++ p.2.val ∈ hashInputs as ∪ hashInputs bs := by
      rcases used with left | right
      · exact .inl (.inr ⟨p, left, rfl⟩)
      · exact .inr (.inr ⟨p, right, rfl⟩)
    intro p first q second equal
    have bytes := free (hashed first) (hashed second) equal
    obtain ⟨acc, body⟩ := List.append_inj bytes (p.1.property.trans q.1.property.symm)
    exact Prod.ext (Subtype.ext acc) (Subtype.ext body)
  have bodies := (HashChain.binds (by rw [List.length_map, List.length_map, length]) links same).2
  apply List.ext_getElem
  · rw [List.length_map, List.length_map, length]
  · intro i left right
    rw [List.length_map] at left right
    rw [List.getElem_map, List.getElem_map]
    have used {ms : List L1IncomingMessage} {m : L1IncomingMessage} (member : m ∈ ms) :
        m.l2msg ∈ hashInputs ms ∧ delayedMessageBody m ∈ hashInputs ms :=
      ⟨.inl ⟨m, member, .inl rfl⟩, .inl ⟨m, member, .inr rfl⟩⟩
    have here := used (List.getElem_mem left)
    have there := used (List.getElem_mem right)
    have hash : delayedMessageBodyHash as[i] = delayedMessageBodyHash bs[i] := by
      have at_i := congrArg (fun hashes => hashes[i]?) bodies
      simpa [List.getElem?_eq_getElem left, List.getElem?_eq_getElem right] using at_i
    exact delayedMessageBodyHash_binds free ⟨.inl here.1, .inl here.2⟩ ⟨.inr there.1, .inr there.2⟩ hash

/-- What `get_delayed_acc` hashes for the stored messages. -/
def HashedBy (db : Db) : Set Bytes :=
  {x | ∃ i data acc msg, db.get .rlpDelayedMessage i = some data ∧
    InboxTracker.splitEntry .plain data = .ok (acc, msg) ∧
    (x = msg.l2msg ∨ x = delayedMessageBody msg ∨ x = acc.val ++ (delayedMessageBodyHash msg).val)}

variable {db : Db} {delayed : List DelayedMessage}

theorem accumulator_eq_chain (ds : List DelayedMessage) :
    accumulator ds = delayedChain (ds.map DelayedMessage.msg) := by
  rw [delayedChain, List.map_map, List.foldl_map]
  rfl

/-- The stored entries hold all that the chain over a prefix of the messages hashes. -/
theorem HoldsDelayed.hashInputs (holds : HoldsDelayed db delayed) (n : Nat) :
    hashInputs ((delayed.take n).map DelayedMessage.msg) ⊆ HashedBy db := by
  have stored {i : Nat} {d : DelayedMessage} (here : (delayed.take n)[i]? = some d) :
      db.get .rlpDelayedMessage i = some ((accumulator (delayed.take i)).val ++ d.bytes) ∧ i < n := by
    rw [List.getElem?_take] at here
    split at here
    · rename_i below
      exact ⟨by rw [holds.entries, Ledger.entry, Ledger.ofDelayed, here, Option.map_some], below⟩
    · contradiction
  rintro x (⟨msg, member, part⟩ | ⟨p, member, rfl⟩)
  · obtain ⟨d, inside, rfl⟩ := List.mem_map.mp member
    obtain ⟨i, here⟩ := List.mem_iff_getElem?.mp inside
    refine ⟨i, _, _, d.msg, (stored here).1, splitEntry_append _ _ d, ?_⟩
    rcases part with l2 | body
    · exact .inl l2
    · exact .inr (.inl body)
  · obtain ⟨i, here⟩ := List.mem_iff_getElem?.mp member
    rw [HashChain.getElem_uses, List.map_map, List.getElem?_map, Option.map_map] at here
    obtain ⟨d, found, rfl⟩ := Option.map_eq_some_iff.mp here
    obtain ⟨entry, below⟩ := stored found
    refine ⟨i, _, _, d.msg, entry, splitEntry_append _ _ d, .inr (.inr ?_)⟩
    have front : (delayed.take n).take i = delayed.take i := by
      rw [List.take_take, Nat.min_eq_left below.le]
    have chain : accumulator (delayed.take i) =
        (((delayed.take n).map (delayedMessageBodyHash ∘ DelayedMessage.msg)).take i).foldl
          delayedLink .zero := by
      rw [← List.map_take, front, accumulator_eq_chain, delayedChain, List.map_map]
    rw [chain]
    rfl

omit [Externals] in
/-- A message parsed from its bytes carries no gas cost. -/
theorem DelayedMessage.covered_msg (d : DelayedMessage) : covered d.msg = d.msg := by
  obtain ⟨bytes, msg, parsed⟩ := d
  obtain ⟨p, rfl⟩ := LegacyParts.exists_parts (length_of_parse parsed)
  cases p.parse_bytes.symm.trans parsed
  rfl

/-- The last accumulator of two runs binds the messages below it. -/
theorem delayed_accumulator_binds_history {t₁ t₂ : InboxTracker} (first : DelayedReachable t₁)
    (second : DelayedReachable t₂) (free : Set.InjOn keccak256 (HashedBy t₁.db ∪ HashedBy t₂.db))
    {n n₁ n₂ : Nat} (count₁ : InboxTracker.getDelayedCount t₁.db = .ok n₁)
    (count₂ : InboxTracker.getDelayedCount t₂.db = .ok n₂) (positive : 1 ≤ n) (inside : n ≤ n₁ ∧ n ≤ n₂)
    (same : InboxTracker.getDelayedAcc t₁.db (n - 1) = InboxTracker.getDelayedAcc t₂.db (n - 1)) :
    ∀ i < n, ∃ msg, InboxTracker.getDelayedMessage t₁.db i = .ok msg ∧
      InboxTracker.getDelayedMessage t₂.db i = .ok msg := by
  obtain ⟨as, holds₁⟩ := first.holds
  obtain ⟨bs, holds₂⟩ := second.holds
  cases count₁.symm.trans holds₁.count
  cases count₂.symm.trans holds₂.count
  rw [holds₁.getDelayedAcc, holds₂.getDelayedAcc, if_pos (by omega), if_pos (by omega),
    Nat.sub_add_cancel positive, accumulator_eq_chain, accumulator_eq_chain, Except.ok.injEq] at same
  have length : ((as.take n).map DelayedMessage.msg).length = ((bs.take n).map DelayedMessage.msg).length := by
    simp [inside.1, inside.2]
  have free' := free.mono (Set.union_subset_union (holds₁.hashInputs n) (holds₂.hashInputs n))
  have equal := delayedChain_binds length free' same
  intro i below
  have left : as[i]? = some as[i] := List.getElem?_eq_getElem (by omega)
  have right : bs[i]? = some bs[i] := List.getElem?_eq_getElem (by omega)
  have here := congrArg (fun msgs => msgs[i]?) equal
  simp only [List.map_map, List.getElem?_map, List.getElem?_take, if_pos below, left, right,
    Option.map_some, Option.some.injEq, Function.comp_apply, DelayedMessage.covered_msg] at here
  exact ⟨_, holds₁.getDelayedMessage left, here ▸ holds₂.getDelayedMessage right⟩

/-- Nothing else is hashed. -/
theorem HoldsDelayed.mem_of_hashedBy (holds : HoldsDelayed db delayed) {x : Bytes} (used : x ∈ HashedBy db) :
    ∃ i d, delayed[i]? = some d ∧ (x = d.msg.l2msg ∨ x = delayedMessageBody d.msg ∨
      x = (accumulator (delayed.take i)).val ++ (delayedMessageBodyHash d.msg).val) := by
  obtain ⟨i, data, acc, msg, stored, entry, part⟩ := used
  rw [holds.entries, Ledger.entry, Ledger.ofDelayed] at stored
  obtain ⟨d, here, rfl⟩ := Option.map_eq_some_iff.mp stored
  rw [splitEntry_append] at entry
  cases entry
  exact ⟨i, d, here, part⟩

end

section Samples
open Codecs

/-- A message with a value in every field. -/
def filledMessage : DelayedMessage where
  bytes := 3 :: List.replicate 12 0 ++ List.replicate 20 7 ++ [0, 0, 0, 0, 0, 0, 1, 2] ++ [0, 0, 0, 0, 0, 0, 0, 9] ++
    List.replicate 32 5 ++ (List.replicate 31 0 ++ [6]) ++ [0xca, 0xfe]
  msg := { filledIncoming with batchGasCost := none }
  parsed := by decide +kernel

/-- A history of three messages, and the tracker that has added the first two of them at once. -/
def threeMessages : List DelayedMessage := [zeroMessage, filledMessage, zeroMessage]

def addedOnce : InboxTracker := final (InboxTracker.addDelayedMessages
  (delayedInputs 0 .zero (threeMessages.take 2)) none initialTracker)

/-- The tracker that had another second message before a reorg. -/
def reorgedDelayed : InboxTracker := final (InboxTracker.reorgDelayedTo 1 twoDelayed)

def addedLater : InboxTracker := final (InboxTracker.addDelayedMessages
  (delayedInputs 1 (accumulator [zeroMessage]) [filledMessage, zeroMessage]) none reorgedDelayed)

theorem initialTracker_holds : HoldsDelayed initialTracker.db [] := by
  obtain ⟨delayed, holds⟩ := (DelayedReachable.init (.refl _ _) : DelayedReachable initialTracker).holds
  have none : InboxTracker.getDelayedCount initialTracker.db = .ok 0 := by decide +kernel
  have empty := holds.count.symm.trans none
  rw [Except.ok.injEq, List.length_eq_zero_iff] at empty
  rwa [empty] at holds

theorem initialTracker_holds_after {ds : List DelayedMessage} (some : ds ≠ []) :
    HoldsDelayed (final (InboxTracker.addDelayedMessages (delayedInputs 0 .zero ds) none
      initialTracker)).db ds := by
  obtain ⟨t', added, db⟩ := addDelayedMessages_holds initialTracker_holds (Nat.le_refl 0) some
  have added : InboxTracker.addDelayedMessages (delayedInputs 0 .zero ds) none initialTracker =
    .ok () t' := added
  rw [added, final_ok, db]
  exact initialTracker_holds.replace (Nat.le_refl 0) ds

/-- The bytes hashed for the messages of a history. -/
def inputsOf (history : List DelayedMessage) : List Bytes :=
  (history.mapIdx fun i d => [d.msg.l2msg, delayedMessageBody d.msg,
    (accumulator (history.take i)).val ++ (delayedMessageBodyHash d.msg).val]).flatten

theorem mem_inputsOf {history : List DelayedMessage} {db : Db} {n : Nat} (holds : HoldsDelayed db (history.take n)) {x : Bytes}
    (used : x ∈ HashedBy db) : x ∈ inputsOf history := by
  obtain ⟨i, d, here, part⟩ := holds.mem_of_hashedBy used
  have below : i < n := Nat.lt_of_lt_of_le (List.getElem?_eq_some_iff.mp here).1 (List.length_take_le _ _)
  rw [List.getElem?_take_of_lt below] at here
  rw [List.take_take, Nat.min_eq_left below.le] at part
  obtain ⟨inside, rfl⟩ := List.getElem?_eq_some_iff.mp here
  refine List.mem_flatten_of_mem (List.mem_mapIdx.mpr ⟨i, inside, rfl⟩) ?_
  rcases part with rfl | rfl | rfl <;> simp

theorem addedLater_holds : HoldsDelayed addedLater.db (threeMessages.take 3) := by
  have before : HoldsDelayed twoDelayed.db [zeroMessage, zeroMessage] :=
    initialTracker_holds_after (List.cons_ne_nil _ _)
  obtain ⟨t', reorged, after⟩ := reorgDelayedTo_holds before one_le_two
  have between : HoldsDelayed reorgedDelayed.db [zeroMessage] := by
    rw [reorgedDelayed, reorged]
    exact after
  have later : [filledMessage, zeroMessage] ≠ [] := List.cons_ne_nil _ _
  obtain ⟨u, added, db⟩ := addDelayedMessages_holds between le_rfl later
  have ran : InboxTracker.addDelayedMessages (delayedInputs 1 (accumulator [zeroMessage]) [filledMessage, zeroMessage]) none
    reorgedDelayed = .ok () u := added
  rw [addedLater, ran, final_ok, db]
  exact between.replace le_rfl _

/-- Two histories with a common accumulator behind two messages, one of them behind a reorg. -/
theorem reorged_history_is_bound : Set.InjOn keccak256 (HashedBy addedOnce.db ∪ HashedBy addedLater.db) ∧
    InboxTracker.getDelayedCount addedOnce.db = .ok 2 ∧ InboxTracker.getDelayedCount addedLater.db = .ok 3 ∧
    ∀ i < 2, ∃ msg, InboxTracker.getDelayedMessage addedOnce.db i = .ok msg ∧
      InboxTracker.getDelayedMessage addedLater.db i = .ok msg := by
  have holds₁ : HoldsDelayed addedOnce.db (threeMessages.take 2) :=
    initialTracker_holds_after (List.cons_ne_nil _ _)
  have holds₂ := addedLater_holds
  have distinct : ∀ x ∈ inputsOf threeMessages, ∀ y ∈ inputsOf threeMessages, keccak256 x = keccak256 y → x = y := by decide +kernel
  have free : Set.InjOn keccak256 (HashedBy addedOnce.db ∪ HashedBy addedLater.db) := by
    intro x left y right same
    have inside {z : Bytes} (used : z ∈ HashedBy addedOnce.db ∪ HashedBy addedLater.db) : z ∈ inputsOf threeMessages :=
      used.elim (mem_inputsOf holds₁) (mem_inputsOf holds₂)
    exact distinct x (inside left) y (inside right) same
  have reorged : DelayedReachable reorgedDelayed :=
    .step twoDelayed_reachable (.reorgDelayedTo 1 fun n count => by
      cases count.symm.trans twoDelayed_count
      exact one_le_two)
  have first : DelayedReachable addedOnce := .step (.init (.refl _ _)) (.addDelayedMessages _)
  have second : DelayedReachable addedLater := .step reorged (.addDelayedMessages _)
  have same : InboxTracker.getDelayedAcc addedOnce.db (2 - 1) = InboxTracker.getDelayedAcc addedLater.db (2 - 1) := by
    rw [holds₁.getDelayedAcc, holds₂.getDelayedAcc]
    rfl
  exact ⟨free, holds₁.count, holds₂.count, delayed_accumulator_binds_history first second free holds₁.count holds₂.count
    one_le_two ⟨le_rfl, Nat.le_succ 2⟩ same⟩

end Samples
end NitroRs
