import NitroRs.Db.Sled
import NitroRs.Lib.Checked
import NitroRs.Lib.Longest
import NitroRs.Primitives.Records
import NitroRs.Streamer.Streamer

/-! The messages that are stored already, as the streamer counts them in the bytes of the
database: entries are compared as they are encoded, and decoded when that fails. -/
namespace NitroRs.SledStreamer
open Checked TransactionStreamer

section Source
variable (rlp : AlloyRlp)

def messageKey (msgIdx : Nat) : Bytes := dbKey messagePrefix (.ofNat msgIdx)

def writeMessage (msgIdx : Nat) (msg : MessageWithMetadataAndBlockInfo) (batch : SledBatch)
    (trackBlockMetadataFrom : Option Nat) : SledBatch :=
  let batch := batch.put (messageKey msgIdx) (msg.messageWithMeta.encode rlp)
  let batch := batch.put (dbKey blockHashInputFeedPrefix (.ofNat msgIdx))
    ((BlockHashDbValue.codec rlp).encode ⟨msg.blockHash⟩)
  match trackBlockMetadataFrom with
  | some startFrom =>
    if startFrom ≤ msgIdx then
      match msg.blockMetadata with
      | some metadata => batch.put (dbKey blockMetadataInputFeedPrefix (.ofNat msgIdx)) metadata
      | none => batch.put (dbKey missingBlockMetadataInputFeedPrefix (.ofNat msgIdx)) []
    else batch
  | none => batch

/-- The decoder, with its panic apart from its errors. -/
def decodeMessage (bytes : Bytes) : Except Panic (Option MessageWithMetadata) :=
  match MessageWithMetadata.decode rlp bytes with
  | .ok (m, _) => .ok (some m)
  | .error .slicePanic => .error .outOfRange
  | .error _ => .ok none

/-- What the loop finds an entry to be. -/
inductive Comparison where
  | duplicate (masked : Bool)
  | differs (dbMsg : Option MessageWithMetadata)

def compareEntry (entry : Bytes) (next : MessageWithMetadata) : Except Panic Comparison :=
  if entry = next.encode rlp then .ok (.duplicate false)
  else do
    match ← decodeMessage rlp entry with
    | none => return .differs none
    | some dbMsg =>
      if (dbMsg.message.batchGasCost.isNone ∨ next.message.batchGasCost.isNone) ∧
          withoutGasCost dbMsg = withoutGasCost next then return .duplicate true
      else return .differs (some dbMsg)

/-- The loop of `count_duplicate_messages`, over the messages that are left. -/
def countDuplicatesFrom (db : SledDb) (cur msgIdx : Nat) (batch : Option SledBatch) :
    List MessageWithMetadataAndBlockInfo →
      Except (Stop Error) ((Nat × Bool × Option MessageWithMetadata) × Option SledBatch)
  | [] => return ((cur, false, none), batch)
  | m :: later =>
    match db.get (messageKey msgIdx) with
    | .error e => if e.isNotFound then return ((cur, false, none), batch) else throw (.error e)
    | .ok entry => do
      match ← ofPanic (compareEntry rlp entry m.messageWithMeta) with
      | .differs dbMsg => return ((cur, true, dbMsg), batch)
      | .duplicate masked =>
        -- a gas cost that the entry lacks is put into the caller's batch
        let batch := batch.map fun b =>
          if masked ∧ m.messageWithMeta.message.batchGasCost.isSome then writeMessage rlp msgIdx m b none
          else b
        let cur ← ofPanic (add64 cur 1)
        let msgIdx ← ofPanic (add64 msgIdx 1)
        countDuplicatesFrom db cur msgIdx batch later

def countDuplicateMessages (db : SledDb) (msgIdx : Nat) (messages : List MessageWithMetadataAndBlockInfo)
    (batch : Option SledBatch) :
    Except (Stop Error) ((Nat × Bool × Option MessageWithMetadata) × Option SledBatch) :=
  countDuplicatesFrom rlp db 0 msgIdx batch messages

/-- A message of the source, whose count of delayed messages is a `u64`. -/
def Valid (m : MessageWithMetadata) : Prop := m.delayedMessagesRead < 2 ^ 64

/-- The message that is stored at an index. -/
def Holds (db : SledDb) (i : Nat) (m : MessageWithMetadata) : Prop :=
  Valid m ∧ db[messageKey i]? = some (m.encode rlp)

/-- Every message entry is one that `write_message` puts there. -/
def Written (db : SledDb) : Prop :=
  ∀ i < 2 ^ 64, ∀ value, db[messageKey i]? = some value →
    ∃ msg track, Valid msg.messageWithMeta ∧
      .put (messageKey i) value ∈ (writeMessage rlp i msg .new track).ops

/-- Equal but for the gas cost, which is the same where both have one. -/
def Same (old next : MessageWithMetadata) : Prop :=
  withoutGasCost old = withoutGasCost next ∧
    ∀ g h, old.message.batchGasCost = some g → next.message.batchGasCost = some h → g = h

/-- The message at a position of the list is stored at its index already. -/
def Duplicate (db : SledDb) (start : Nat) (messages : List MessageWithMetadataAndBlockInfo) (k : Nat) : Prop :=
  ∃ m, messages[k]? = some m ∧ ∃ old, Holds rlp db (start + k) old ∧ Same old m.messageWithMeta

end Source

section Writes
variable {rlp : AlloyRlp} {db : SledDb} {i j : Nat} {value : Bytes}

/-- Of the entries of a message, one is behind the prefix of messages. -/
theorem put_writeMessage_iff (msg : MessageWithMetadataAndBlockInfo) (batch : SledBatch) (track : Option Nat) :
    .put (messageKey j) value ∈ (writeMessage rlp i msg batch track).ops ↔
      .put (messageKey j) value ∈ batch.ops ∨ messageKey j = messageKey i ∧ value = msg.messageWithMeta.encode rlp := by
  have apart {q : Bytes} (member : q ∈ indexPrefixes) (different : messagePrefix ≠ q) (k : UInt64) :
      messageKey j ≠ dbKey q k := dbKey_apart (by decide) member different
  have hash := apart (q := blockHashInputFeedPrefix) (by decide) (by decide)
  have metadata := apart (q := blockMetadataInputFeedPrefix) (by decide) (by decide)
  have missing := apart (q := missingBlockMetadataInputFeedPrefix) (by decide) (by decide)
  unfold writeMessage
  split
  · split
    · split <;> simp [SledBatch.put, hash, metadata, missing]
    · simp [SledBatch.put, hash]
  · simp [SledBatch.put, hash]

theorem written_iff : Written rlp db ↔
    ∀ i < 2 ^ 64, ∀ value, db[messageKey i]? = some value → ∃ m, Valid m ∧ value = m.encode rlp := by
  refine forall₂_congr fun i _ => forall₂_congr fun value _ => ?_
  simp only [put_writeMessage_iff]
  constructor
  · rintro ⟨msg, _, valid, old | ⟨_, same⟩⟩
    · exact nomatch old
    · exact ⟨msg.messageWithMeta, valid, same⟩
  · rintro ⟨m, valid, same⟩
    exact ⟨⟨m, none, none⟩, none, valid, .inr ⟨trivial, same⟩⟩

theorem Written.holds (written : Written rlp db) (small : i < 2 ^ 64) (here : db[messageKey i]? = some value) :
    ∃ m, Holds rlp db i m := by
  obtain ⟨m, valid, rfl⟩ := written_iff.mp written i small value here
  exact ⟨m, valid, here⟩

/-- A database that only `write_message` puts messages into is one of written messages. -/
theorem Written.write {batch : SledBatch} (written : Written rlp db)
    (puts : ∀ i < 2 ^ 64, ∀ value, .put (messageKey i) value ∈ batch.ops → ∃ m, Valid m ∧ value = m.encode rlp) :
    Written rlp (batch.write db) := by
  obtain ⟨ops⟩ := batch
  induction ops generalizing db with
  | nil => exact written
  | cons op ops ih =>
    refine ih (written_iff.mpr fun i small value here => ?_) fun i small value later =>
      puts i small value (List.mem_cons_of_mem _ later)
    cases op with
    | put key v =>
      rw [SledOp.getElem?_apply_put] at here
      split at here
      · rename_i same
        subst same
        cases here
        exact puts i small _ List.mem_cons_self
      · exact written_iff.mp written i small value here
    | del key =>
      rw [SledOp.getElem?_apply_del] at here
      split at here
      · contradiction
      · exact written_iff.mp written i small value here

theorem written_empty : Written rlp SledDb.empty := by
  intro i _ value here
  rw [SledDb.empty, Std.ExtTreeMap.getElem?_empty] at here
  contradiction

theorem Written.write_message (written : Written rlp db) {msg : MessageWithMetadataAndBlockInfo}
    (valid : Valid msg.messageWithMeta) (track : Option Nat) :
    Written rlp ((writeMessage rlp i msg .new track).write db) := by
  refine written.write fun j _ value put => ?_
  rcases (put_writeMessage_iff msg .new track).mp put with old | ⟨_, same⟩
  · exact nomatch old
  · exact ⟨msg.messageWithMeta, valid, same⟩

end Writes

section Count
variable {rlp : AlloyRlp} {db : SledDb} {start n : Nat} {old next : MessageWithMetadata}
variable {m : MessageWithMetadataAndBlockInfo} {messages later : List MessageWithMetadataAndBlockInfo}

theorem decode_encode (lawful : rlp.Lawful) (valid : Valid old) (rest : Bytes) :
    MessageWithMetadata.decode rlp (old.encode rlp ++ rest) = .ok (old, rest) := by
  have read := (MessageWithMetadata.codec_roundTrips lawful old.message (.ofNat old.delayedMessagesRead)).decode_encode
  rw [UInt64.toNat_ofNat_of_lt' valid] at read
  exact read rest

theorem encode_inj (lawful : rlp.Lawful) (valid : Valid old) (valid' : Valid next) :
    old.encode rlp = next.encode rlp ↔ old = next := by
  refine ⟨fun same => ?_, congrArg _⟩
  have read := decode_encode lawful valid []
  rw [same, decode_encode lawful valid' []] at read
  cases read
  rfl

theorem Holds.unique (lawful : rlp.Lawful) (left : Holds rlp db start old) (right : Holds rlp db start next) :
    old = next :=
  (encode_inj lawful left.1 right.1).mp (Option.some.inj (left.2.symm.trans right.2))

/-- A message is its gas cost and what is left without it. -/
theorem eq_iff_withoutGasCost : old = next ↔
    withoutGasCost old = withoutGasCost next ∧ old.message.batchGasCost = next.message.batchGasCost := by
  refine ⟨fun same => same ▸ ⟨rfl, rfl⟩, fun ⟨rest, cost⟩ => ?_⟩
  obtain ⟨⟨header, l2msg, g⟩, reads⟩ := old
  obtain ⟨⟨header', l2msg', h⟩, reads'⟩ := next
  simp only [withoutGasCost, MessageWithMetadata.mk.injEq, L1IncomingMessage.mk.injEq] at rest cost ⊢
  exact ⟨⟨rest.1.1, rest.1.2.1, cost⟩, rest.2⟩

theorem same_iff : Same old next ↔ old = next ∨
    (old.message.batchGasCost.isNone ∨ next.message.batchGasCost.isNone) ∧
      withoutGasCost old = withoutGasCost next := by
  rw [Same, @eq_iff_withoutGasCost old next, and_comm (b := withoutGasCost old = withoutGasCost next), ← and_or_left]
  refine and_congr_right fun _ => ?_
  cases old.message.batchGasCost with
  | none => simp
  | some g =>
    cases next.message.batchGasCost with
    | none => simp
    | some h => simp

/-- The comparison of an entry that was written with the next message. -/
theorem compareEntry_encode (lawful : rlp.Lawful) (valid : Valid old) (valid' : Valid next) :
    (Same old next ∧ ∃ masked, compareEntry rlp (old.encode rlp) next = .ok (.duplicate masked)) ∨
      ¬ Same old next ∧ compareEntry rlp (old.encode rlp) next = .ok (.differs (some old)) := by
  have decoded : decodeMessage rlp (old.encode rlp) = .ok (some old) := by
    have read := decode_encode lawful valid []
    rw [List.append_nil] at read
    rw [decodeMessage, read]
  rw [same_iff]
  by_cases same : old = next
  · exact .inl ⟨.inl same, false, if_pos (congrArg _ same)⟩
  · have bytes : old.encode rlp ≠ next.encode rlp := fun equal => same ((encode_inj lawful valid valid').mp equal)
    simp only [compareEntry, if_neg bytes, decoded, bind_ok]
    by_cases masked : (old.message.batchGasCost.isNone ∨ next.message.batchGasCost.isNone) ∧
        withoutGasCost old = withoutGasCost next
    · exact .inl ⟨.inr masked, true, if_pos masked⟩
    · exact .inr ⟨fun either => either.elim same masked, if_neg masked⟩

/-- What a count says: how many messages are stored already, whether another message is stored
at the next index, and that message. -/
structure Counted (rlp : AlloyRlp) (db : SledDb) (start : Nat) (messages : List MessageWithMetadataAndBlockInfo)
    (n : Nat) (conflict : Bool) (old : Option MessageWithMetadata) : Prop where
  longest : Longest (Duplicate rlp db start messages) n
  conflicts : conflict = true ↔ n < messages.length ∧ ∃ m, Holds rlp db (start + n) m
  conflicting : ∀ m, old = some m ↔ conflict = true ∧ Holds rlp db (start + n) m

theorem duplicate_zero : Duplicate rlp db start (m :: later) 0 ↔
    ∃ old, Holds rlp db start old ∧ Same old m.messageWithMeta := by
  simp [Duplicate]

theorem duplicate_succ {k : Nat} :
    Duplicate rlp db start (m :: later) (k + 1) ↔ Duplicate rlp db (start + 1) later k := by
  rw [Duplicate, Duplicate, List.getElem?_cons_succ, Nat.add_assoc, Nat.add_comm 1]

theorem Counted.nil : Counted rlp db start [] 0 false none where
  longest := .zero fun ⟨_, here, _⟩ => nomatch here
  conflicts := iff_of_false nofun fun both => absurd both.1 (Nat.lt_irrefl 0)
  conflicting _ := iff_of_false nofun fun both => nomatch both.1

theorem Counted.missing (absent : ∀ m, ¬ Holds rlp db start m) : Counted rlp db start (m :: later) 0 false none where
  longest := .zero fun first => by
    obtain ⟨old, here, _⟩ := duplicate_zero.mp first
    exact absent old here
  conflicts := iff_of_false nofun fun ⟨_, m, here⟩ => absent m here
  conflicting _ := iff_of_false nofun fun both => nomatch both.1

theorem Counted.differs (lawful : rlp.Lawful) (here : Holds rlp db start old) (apart : ¬ Same old m.messageWithMeta) :
    Counted rlp db start (m :: later) 0 true (some old) where
  longest := .zero fun first => by
    obtain ⟨old', here', same⟩ := duplicate_zero.mp first
    exact apart (Holds.unique lawful here here' ▸ same)
  conflicts := iff_of_true rfl ⟨Nat.succ_pos _, old, here⟩
  conflicting m := by
    rw [Option.some.injEq, and_iff_right rfl]
    exact ⟨fun same => same ▸ here, Holds.unique lawful here⟩

theorem Counted.cons {conflict : Bool} {other : Option MessageWithMetadata} (here : Holds rlp db start old)
    (same : Same old m.messageWithMeta) (rest : Counted rlp db (start + 1) later n conflict other) :
    Counted rlp db start (m :: later) (n + 1) conflict other := by
  have shift : start + (n + 1) = start + 1 + n := by omega
  refine ⟨.succ (duplicate_zero.mpr ⟨old, here, same⟩)
    ((Longest.congr fun _ => duplicate_succ).mpr rest.longest), ?_, ?_⟩
  · rw [shift, List.length_cons, Nat.succ_lt_succ_iff]
    exact rest.conflicts
  · rw [shift]
    exact rest.conflicting

/-- The loop, from any counter and any batch on. -/
theorem countDuplicatesFrom_counted (lawful : rlp.Lawful) (written : Written rlp db)
    (valid : ∀ m ∈ messages, Valid m.messageWithMeta) {cur : Nat} (order : cur ≤ start)
    (small : start + messages.length < 2 ^ 64) (batch : Option SledBatch) :
    ∃ n conflict other batch', countDuplicatesFrom rlp db cur start batch messages =
      .ok ((cur + n, conflict, other), batch') ∧ Counted rlp db start messages n conflict other := by
  induction messages generalizing cur start batch with
  | nil => exact ⟨0, false, none, batch, rfl, .nil⟩
  | cons m later ih =>
    rw [List.length_cons] at small
    obtain ⟨validNext, validLater⟩ := List.forall_mem_cons.mp valid
    rw [countDuplicatesFrom, SledDb.get]
    cases found : db[messageKey start]? with
    | none =>
      refine ⟨0, false, none, batch, rfl, .missing fun m holds => ?_⟩
      rw [holds.2] at found
      contradiction
    | some entry =>
      obtain ⟨old, here⟩ := written.holds (by omega) found
      obtain rfl : old.encode rlp = entry := Option.some.inj (here.2.symm.trans found)
      rcases compareEntry_encode lawful here.1 validNext with ⟨same, masked, compared⟩ | ⟨apart, compared⟩
      · have next := add64_ok (a := start) (b := 1) (by omega)
        have counter := add64_ok (a := cur) (b := 1) (by omega)
        obtain ⟨n, conflict, other, batch', ran, counted⟩ :=
          @ih (start + 1) validLater (cur + 1) (by omega) (by omega) (batch.map fun b =>
            if masked ∧ m.messageWithMeta.message.batchGasCost.isSome then writeMessage rlp start m b none else b)
        refine ⟨n + 1, conflict, other, batch', ?_, counted.cons here same⟩
        rw [Nat.add_comm n, ← Nat.add_assoc]
        simp only [compared, next, counter]
        exact ran
      · refine ⟨0, true, some old, batch, ?_, .differs lawful here apart⟩
        simp only [compared]
        rfl

/-- The count is exact: it is that of the longest prefix that is stored already, and it
conflicts where another message stands at the next index. -/
theorem duplicate_count_exact (lawful : rlp.Lawful) (written : Written rlp db)
    (valid : ∀ m ∈ messages, Valid m.messageWithMeta) (small : start + messages.length < 2 ^ 64)
    (batch : Option SledBatch) :
    ∃ n conflict old batch', countDuplicateMessages rlp db start messages batch = .ok ((n, conflict, old), batch') ∧
      Longest (Duplicate rlp db start messages) n ∧
      (conflict = true ↔ n < messages.length ∧ ∃ m, Holds rlp db (start + n) m) ∧
      ∀ m, old = some m ↔ conflict = true ∧ Holds rlp db (start + n) m := by
  obtain ⟨n, conflict, old, batch', ran, counted⟩ :=
    countDuplicatesFrom_counted lawful written valid (Nat.zero_le start) small batch
  rw [Nat.zero_add] at ran
  exact ⟨n, conflict, old, batch', ran, counted.longest, counted.conflicts, counted.conflicting⟩

end Count

section Samples

def pricedMessage (byte : UInt8) (batchGasCost : Option UInt64) : MessageWithMetadataAndBlockInfo where
  messageWithMeta := ⟨⟨⟨3, .zero, 1, 2, none, 0⟩, [byte], batchGasCost⟩, 1⟩
  blockHash := none
  blockMetadata := none

/-- Two messages from index 3 on, the first one with its gas cost. -/
def pricedStore : SledDb :=
  (writeMessage RlpFormat.alloyRlp 4 (pricedMessage 6 none) .new none).write
    ((writeMessage RlpFormat.alloyRlp 3 (pricedMessage 5 (some 9)) .new none).write .empty)

/-- The first message is a duplicate though it lacks the gas cost; the second one is another. -/
theorem second_message_conflicts : ∃ batch', countDuplicateMessages RlpFormat.alloyRlp pricedStore 3
      [pricedMessage 5 none, pricedMessage 7 none] none =
        .ok ((1, true, some (pricedMessage 6 none).messageWithMeta), batch') ∧
    Longest (Duplicate RlpFormat.alloyRlp pricedStore 3 [pricedMessage 5 none, pricedMessage 7 none]) 1 := by
  have valid (byte : UInt8) (cost : Option UInt64) : Valid (pricedMessage byte cost).messageWithMeta := by
    change 1 < 2 ^ 64
    decide
  have written : Written RlpFormat.alloyRlp pricedStore :=
    (written_empty.write_message (valid 5 (some 9)) none).write_message (valid 6 none) none
  have validNew : ∀ m ∈ [pricedMessage 5 none, pricedMessage 7 none], Valid m.messageWithMeta :=
    List.forall_mem_cons.mpr ⟨valid 5 none, List.forall_mem_singleton.mpr (valid 7 none)⟩
  obtain ⟨n, conflict, old, batch', ran, longest, _⟩ :=
    duplicate_count_exact RlpFormat.alloyRlp_lawful written validNew (by decide : 3 + 2 < 2 ^ 64) none
  have counted : (countDuplicateMessages RlpFormat.alloyRlp pricedStore 3
      [pricedMessage 5 none, pricedMessage 7 none] none).map Prod.fst =
        .ok (1, true, some (pricedMessage 6 none).messageWithMeta) := by decide +kernel
  rw [ran] at counted
  cases counted
  exact ⟨batch', ran, longest⟩

end Samples

end NitroRs.SledStreamer
