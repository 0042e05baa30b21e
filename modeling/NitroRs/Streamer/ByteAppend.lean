import NitroRs.Db.Representation
import NitroRs.Streamer.ByteRefinement

/-! Appends on the bytes of the database, whose additions are checked: as long as none of them
overflows, they do what they do on the tables. -/
namespace NitroRs.SledStreamer
open Checked KeyValue Outcome Simulation TransactionStreamer

section Source
variable (rlp : AlloyRlp)

def messageCount (db : SledDb) : Except (Stop StorageError) Nat := db.readU64 rlp messageCountKey

/-- `get_message_count().unwrap_or(0)`. -/
def messageCountOrZero (db : SledDb) : Except (Stop StorageError) Nat :=
  match messageCount rlp db with
  | .error (.error _) => .ok 0
  | result => result

def getHeadMessageIndex (db : SledDb) : Except (Stop StorageError) Nat := do
  let count ← messageCount rlp db
  return if count = 0 then 2 ^ 64 - 1 else count - 1

def getMessage (db : SledDb) (index : Nat) : Except (Stop StorageError) MessageWithMetadata := do
  let data ← db.read (messageKey index)
  let (m, _) ← decoded (MessageWithMetadata.decode rlp data)
  return m

/-- `Ok(None)` for an entry that is not found. -/
def optional {α : Type} (x : Except (Stop StorageError) (Option α)) : Except (Stop StorageError) (Option α) :=
  match x with
  | .error (.error (.node e)) => if e.isNotFound then .ok none else .error (.error (.node e))
  | result => result

def blockHashAtMessageIndex (db : SledDb) (index : Nat) : Except (Stop StorageError) (Option B256) := optional do
  let data ← db.read (dbKey blockHashInputFeedPrefix (.ofNat index))
  let (bh, _) ← decoded ((BlockHashDbValue.codec rlp).decode data)
  return bh.blockHash

def blockMetadataAtMessageIndex (db : SledDb) (index : Nat) : Except (Stop StorageError) (Option Bytes) := optional do
  let data ← db.read (dbKey blockMetadataInputFeedPrefix (.ofNat index))
  return some data

def resultAtMessageIndex (db : SledDb) (index : Nat) : Except (Stop StorageError) (Option MessageResult) := optional do
  let data ← db.read (dbKey messageResultPrefix (.ofNat index))
  let (res, _) ← decoded (MessageResult.decode rlp data)
  return some res

def getMessageWithMetadataAndBlockInfo (db : SledDb) (index : Nat) :
    Except (Stop StorageError) MessageWithMetadataAndBlockInfo := do
  let messageWithMeta ← getMessage rlp db index
  let blockHash ← blockHashAtMessageIndex rlp db index
  let blockMetadata ← blockMetadataAtMessageIndex db index
  return ⟨messageWithMeta, blockHash, blockMetadata⟩

def getPrevPrevDelayedRead (db : SledDb) (idx : Nat) : Except (Stop StorageError) Nat :=
  if idx = 0 then .ok 0
  else
    match getMessage rlp db (idx - 1) with
    | .ok prev => .ok prev.delayedMessagesRead
    | .error (.error (.node e)) => if e.isNotFound then .ok 0 else .error (.error (.node e))
    | .error stop => .error stop

/-- The loop over the messages that are left; their indices are computed for each of them. -/
def checkDelayedReads (first : Nat) : Nat → Nat → List MessageWithMetadataAndBlockInfo → Except (Stop StorageError) Unit
  | _, _, [] => .ok ()
  | i, last, m :: ms => do
    let idx ← ofPanic (add64 first i)
    if 1 < m.messageWithMeta.delayedMessagesRead - last then
      throw (.error (.node (.delayedReadJump last m.messageWithMeta.delayedMessagesRead idx)))
    else checkDelayedReads first (i + 1) m.messageWithMeta.delayedMessagesRead ms

/-- `write_messages` in a batch of its own. -/
def writeNew (track : Option Nat) (first : Nat) (messages : List MessageWithMetadataAndBlockInfo) :
    EStateM (Stop StorageError) SledDb Unit := do
  let _ ← lift (ofPanic (add64 first messages.length))
  update (writeMessages rlp track first messages .new).write

/-- `add_messages_and_reorg`: the cut and its batch, then the new messages in another one. -/
def addMessagesAndReorg (first : Nat) (newMessages : List MessageWithMetadataAndBlockInfo) (track : Option Nat) :
    EStateM (Stop StorageError) SledDb Unit :=
  if first = 0 then throw (.error (.node .reorgInitMessage))
  else do
    let db ← read
    let batch ← lift (iterated (reorgBatch rlp db first))
    update batch.write
    if newMessages.isEmpty then return () else writeNew rlp track first newMessages

/-- The delayed count of the last duplicate. -/
def duplicateDelayedRead (dups : Nat) (messages : List MessageWithMetadataAndBlockInfo) :
    Except (Stop StorageError) Nat :=
  if 0 < dups then (ofPanic (index messages (dups - 1))).map (·.messageWithMeta.delayedMessagesRead) else .ok 0

/-- Without a duplicate, or behind one that reads as zero, the stored message in front counts. -/
def previousDelayedRead (db : SledDb) (idx last : Nat) : Except (Stop StorageError) Nat :=
  if last = 0 then getPrevPrevDelayedRead rlp db idx else .ok last

/-- The delayed count before the messages that are left. -/
def lastDelayedRead (db : SledDb) (idx dups : Nat) (messages : List MessageWithMetadataAndBlockInfo) :
    Except (Stop StorageError) Nat := do
  let last ← duplicateDelayedRead dups messages
  let last ← previousDelayedRead rlp db idx last
  match messages.drop dups with
  | [] => return last
  | m :: _ => do
    let dbCount ← messageCountOrZero rlp db
    return if dbCount < idx ∧ last = 0 then m.messageWithMeta.delayedMessagesRead else last

def addMessagesAndEndBatchImpl (first : Nat) (confirmed : Bool) (messages : List MessageWithMetadataAndBlockInfo)
    (track : Option Nat) : EStateM (Stop StorageError) SledDb Unit := do
  let db ← read
  let dbCountNow ← lift (messageCountOrZero rlp db)
  if dbCountNow ≠ first then throw (.error (.node (.nonContiguousAppend dbCountNow first)))
  else do
    let ((dups, reorg, _), _) ← lift ((countDuplicateMessages rlp db first messages
      (if confirmed then some .new else none)).mapError fun
        | .error e => .error (.node e)
        | .panic p => .panic p)
    if !confirmed && reorg then return ()
    else do
      let fresh := messages.drop dups
      let idx ← lift (ofPanic (add64 first dups))
      let last ← lift (lastDelayedRead rlp db idx dups messages)
      lift (checkDelayedReads idx 0 last fresh)
      if reorg then addMessagesAndReorg rlp idx fresh track
      else if fresh.isEmpty then return ()
      else writeNew rlp track idx fresh

def reorgAtAndEndBatch (first : Nat) : EStateM (Stop StorageError) SledDb Unit := addMessagesAndReorg rlp first [] none

def addMessagesAndEndBatch (first : Nat) (newMessages : List MessageWithMetadataAndBlockInfo) (track : Option Nat) :
    EStateM (Stop StorageError) SledDb Unit := addMessagesAndEndBatchImpl rlp first false newMessages track

def addConfirmedMessagesAndEndBatch (first : Nat) (newMessages : List MessageWithMetadataAndBlockInfo)
    (track : Option Nat) : EStateM (Stop StorageError) SledDb Unit :=
  addMessagesAndEndBatchImpl rlp first true newMessages track

end Source

variable {rlp : AlloyRlp} {tree : SledDb} {db : Db} {first i n : Nat} {track : Option Nat}
variable {messages : List MessageWithMetadataAndBlockInfo} {m : MessageWithMetadataAndBlockInfo}

theorem storageEncoding_messages (rlp : AlloyRlp) : EncodesMessages rlp (storageEncoding rlp) where
  message _ := rfl
  blockHash _ := rfl
  blockMetadata _ := rfl
  missing := rfl
  count _ := rfl

section Readers
variable (lawful : rlp.Lawful) (persisted : Persisted rlp tree db)
include lawful persisted

theorem messageCount_eq : messageCount rlp tree = onBytes (getMessageCount db) :=
  persisted.readU64 lawful .messageCount

theorem messageCountOrZero_eq : messageCountOrZero rlp tree = .ok (TransactionStreamer.messageCountOrZero db) := by
  rw [messageCountOrZero, messageCount_eq lawful persisted, getMessageCount, Db.readCount,
    TransactionStreamer.messageCountOrZero]
  cases db.count .messageCount <;> rfl

theorem getHeadMessageIndex_eq : getHeadMessageIndex rlp tree = onBytes (TransactionStreamer.getHeadMessageIndex db) := by
  rw [getHeadMessageIndex, messageCount_eq lawful persisted, TransactionStreamer.getHeadMessageIndex]
  cases getMessageCount db <;> rfl

theorem getMessage_eq (small : i < 2 ^ 64) : getMessage rlp tree i = onBytes (TransactionStreamer.getMessage db i) := by
  have stored := persisted.read_record .message small
  rw [getMessage, TransactionStreamer.getMessage, messageKey]
  rw [Table.keyPrefix] at stored
  rw [stored]
  cases found : db.get .message i with
  | none => rfl
  | some m =>
    have read := decode_encode lawful (persisted.records .message i m found) []
    rw [List.append_nil] at read
    change (decoded (MessageWithMetadata.decode rlp (m.encode rlp)) >>= _) = _
    rw [read]
    rfl

theorem blockHashAtMessageIndex_eq (small : i < 2 ^ 64) :
    blockHashAtMessageIndex rlp tree i = .ok (TransactionStreamer.blockHashAtMessageIndex db i) := by
  have stored := persisted.read_record .blockHashInputFeed small
  rw [Table.keyPrefix] at stored
  rw [blockHashAtMessageIndex, TransactionStreamer.blockHashAtMessageIndex, stored]
  cases found : db.get .blockHashInputFeed i with
  | none => rfl
  | some h =>
    have read := (BlockHashDbValue.codec_lawful lawful).decode_encode_nil ⟨h⟩
    change optional (decoded ((BlockHashDbValue.codec rlp).decode ((BlockHashDbValue.codec rlp).encode ⟨h⟩)) >>= _) = _
    rw [read]
    rfl

omit lawful in
theorem blockMetadataAtMessageIndex_eq (small : i < 2 ^ 64) :
    blockMetadataAtMessageIndex tree i = .ok (TransactionStreamer.blockMetadataAtMessageIndex db i) := by
  have stored := persisted.read_record .blockMetadataInputFeed small
  rw [Table.keyPrefix] at stored
  rw [blockMetadataAtMessageIndex, TransactionStreamer.blockMetadataAtMessageIndex, stored]
  cases db.get .blockMetadataInputFeed i <;> rfl

theorem resultAtMessageIndex_eq (small : i < 2 ^ 64) : resultAtMessageIndex rlp tree i = .ok (db.get .messageResult i) := by
  have stored := persisted.read_record .messageResult small
  rw [Table.keyPrefix] at stored
  rw [resultAtMessageIndex, stored]
  cases found : db.get .messageResult i with
  | none => rfl
  | some res =>
    have read := (MessageResult.codec_lawful lawful).decode_encode_nil res
    change optional (decoded (MessageResult.decode rlp (res.encode rlp)) >>= _) = _
    change MessageResult.decode rlp (res.encode rlp) = _ at read
    rw [read]
    rfl

theorem getMessageWithMetadataAndBlockInfo_eq (small : i < 2 ^ 64) : getMessageWithMetadataAndBlockInfo rlp tree i =
    onBytes (TransactionStreamer.getMessageWithMetadataAndBlockInfo db i) := by
  rw [getMessageWithMetadataAndBlockInfo, getMessage_eq lawful persisted small,
    blockHashAtMessageIndex_eq lawful persisted small, blockMetadataAtMessageIndex_eq persisted small,
    TransactionStreamer.getMessageWithMetadataAndBlockInfo]
  cases TransactionStreamer.getMessage db i <;> rfl

theorem getPrevPrevDelayedRead_eq (small : i ≤ 2 ^ 64) :
    getPrevPrevDelayedRead rlp tree i = .ok (TransactionStreamer.getPrevPrevDelayedRead db i) := by
  rw [getPrevPrevDelayedRead, TransactionStreamer.getPrevPrevDelayedRead]
  by_cases zero : i = 0
  · rw [if_pos zero, if_pos zero]
  · rw [if_neg zero, if_neg zero, getMessage_eq lawful persisted (by omega), TransactionStreamer.getMessage]
    cases db.get .message (i - 1) <;> rfl

theorem lastDelayedRead_eq {dups : Nat} (inside : dups ≤ messages.length) (small : first + dups < 2 ^ 64) :
    lastDelayedRead rlp tree (first + dups) dups messages =
      .ok (TransactionStreamer.lastDelayedRead db first dups messages) := by
  have front : duplicateDelayedRead dups messages =
      .ok (if dups = 0 then 0 else ((messages[dups - 1]?).map (·.messageWithMeta.delayedMessagesRead)).getD 0) := by
    rcases Nat.eq_zero_or_pos dups with rfl | some
    · rfl
    · have here := List.getElem?_eq_getElem (show dups - 1 < messages.length by omega)
      rw [duplicateDelayedRead, if_pos some, if_neg (by omega), index_ok here, here]
      rfl
  rw [lastDelayedRead, TransactionStreamer.lastDelayedRead, front, messageCountOrZero_eq lawful persisted]
  generalize (if dups = 0 then 0 else _) = last
  have before : previousDelayedRead rlp tree (first + dups) last =
      .ok (if last = 0 then TransactionStreamer.getPrevPrevDelayedRead db (first + dups) else last) := by
    rw [previousDelayedRead, getPrevPrevDelayedRead_eq lawful persisted (Nat.le_of_lt small)]
    split <;> rfl
  simp only [bind, Except.bind, before]
  cases messages.drop dups <;> rfl

end Readers

theorem checkDelayedReads_agrees (first i last : Nat) (ms : List MessageWithMetadataAndBlockInfo) :
    Agrees Eq StorageError.Is (checkDelayedReads first i last ms)
      (TransactionStreamer.checkDelayedReads (first + i) last ms) := by
  induction ms generalizing i last with
  | nil => exact .ok rfl
  | cons m ms ih =>
    rw [checkDelayedReads, TransactionStreamer.checkDelayedReads]
    refine .ofPanic_bind fun idx added => ?_
    obtain ⟨_, rfl⟩ := add64_eq_ok.mp added
    by_cases jump : 1 < m.messageWithMeta.delayedMessagesRead - last
    · rw [if_pos jump, if_pos jump]
      exact .error rfl
    · rw [if_neg jump, if_neg jump]
      exact ih (i + 1) _

/-- The loop of the count, which ends early where an index overflows. -/
theorem countDuplicatesFrom_agrees (lawful : rlp.Lawful) (persisted : Persisted rlp tree db) {idx cur : Nat}
    (small : idx < 2 ^ 64) (valid : ∀ m ∈ messages, Valid m.messageWithMeta) (batch : Option SledBatch) :
    Agrees (fun a b => a.1.1 = cur + b.1 ∧ a.1.2.1 = b.2) Eq (countDuplicatesFrom rlp tree cur idx batch messages)
      (.ok (TransactionStreamer.countDuplicateMessages db idx messages) : Except Error _) := by
  induction messages generalizing idx cur batch with
  | nil => exact .ok ⟨rfl, rfl⟩
  | cons m later ih =>
    obtain ⟨validNext, validLater⟩ := List.forall_mem_cons.mp valid
    have stored : tree[messageKey idx]? = (db.get .message idx).map fun old => old.encode rlp :=
      persisted.record .message small
    rw [countDuplicatesFrom, TransactionStreamer.countDuplicateMessages, SledDb.get, stored]
    cases found : db.get .message idx with
    | none => exact .ok ⟨rfl, rfl⟩
    | some old =>
      change Agrees _ _ (ofPanic (compareEntry rlp (old.encode rlp) m.messageWithMeta) >>= _) _
      rcases compareEntry_encode lawful (persisted.records .message idx old found) validNext with
        ⟨same, masked, compared⟩ | ⟨apart, compared⟩
      · simp only [compared, if_pos (isDuplicate_iff.mpr same)]
        refine .ofPanic_bind fun _ done => ?_
        cases done
        refine .ofPanic_bind fun counter counted => .ofPanic_bind fun next added => ?_
        obtain ⟨_, rfl⟩ := add64_eq_ok.mp counted
        obtain ⟨inside, rfl⟩ := add64_eq_ok.mp added
        refine Agrees.mapValue (g := fun b : Nat × Bool => (b.1 + 1, b.2)) (ih inside validLater _) fun a b agree => ?_
        refine ⟨?_, agree.2⟩
        rw [agree.1, Nat.add_assoc, Nat.add_comm 1]
      · simp only [compared, if_neg (mt isDuplicate_iff.mp apart)]
        exact .ok ⟨rfl, rfl⟩

theorem writeMessages_fits {idx : Nat} (small : idx + messages.length < 2 ^ 64)
    (valid : ∀ m ∈ messages, Valid m.messageWithMeta) (track : Option Nat) :
    ∀ op ∈ TransactionStreamer.writeMessages track idx messages, DbOp.Fits op := by
  induction messages generalizing idx with
  | nil => exact List.forall_mem_singleton.mpr small
  | cons m ms ih =>
    obtain ⟨here, later⟩ := List.forall_mem_cons.mp valid
    rw [List.length_cons] at small
    have inside : idx < 2 ^ 64 := by omega
    refine List.forall_mem_append.mpr ⟨?_, ih (by omega) later⟩
    unfold TransactionStreamer.writeMessage
    refine List.forall_mem_cons.mpr ⟨⟨inside, here⟩, List.forall_mem_cons.mpr ⟨⟨inside, trivial⟩, ?_⟩⟩
    split
    · exact List.forall_mem_nil _
    · split
      · split
        · exact List.forall_mem_singleton.mpr ⟨inside, trivial⟩
        · exact List.forall_mem_singleton.mpr ⟨inside, trivial⟩
      · exact List.forall_mem_nil _

theorem cutOps_fits (persisted : Persisted rlp tree db) (small : first < 2 ^ 64) : ∀ op ∈ cutOps db first, DbOp.Fits op := by
  have dels (t : Table) := persisted.deleteFrom_fits t first
  simp only [cutOps, List.forall_mem_append, List.forall_mem_singleton]
  exact ⟨⟨⟨⟨⟨dels _, dels _⟩, dels _⟩, dels _⟩, dels _⟩, small⟩

/-- The new messages in a batch of their own. -/
theorem writeNew_matches (persisted : Persisted rlp tree db) (valid : ∀ m ∈ messages, Valid m.messageWithMeta)
    (track : Option Nat) (first : Nat) :
    Matches (Persisted rlp) Eq StorageError.Is (writeNew rlp track first messages tree)
      ((update fun db => db.write (TransactionStreamer.writeMessages track first messages) : EStateM Error Db Unit)
        db) := by
  refine .ofPanic_bind fun idx added => ?_
  obtain ⟨small, _⟩ := add64_eq_ok.mp added
  rw [writeMessages_ops (storageEncoding_messages rlp)]
  exact .ok (persisted.write (writeMessages_fits small valid track)) rfl

theorem addMessagesAndReorg_matches (persisted : Persisted rlp tree db) (valid : ∀ m ∈ messages, Valid m.messageWithMeta)
    (small : first < 2 ^ 64) (track : Option Nat) :
    Matches (Persisted rlp) Eq StorageError.Is (addMessagesAndReorg rlp first messages track tree)
      (TransactionStreamer.addMessagesAndReorg first messages track db) := by
  unfold addMessagesAndReorg TransactionStreamer.addMessagesAndReorg
  by_cases init : first = 0
  · rw [if_pos init, if_pos init]
    exact .error persisted rfl
  · rw [if_neg init, if_neg init, bind_read, reorgBatch_ops (storageEncoding_messages rlp) persisted.encodes small]
    have cut := persisted.write (cutOps_fits persisted small)
    change Matches _ _ _ ((if messages.isEmpty then _ else _ : EStateM (Stop StorageError) SledDb Unit) _)
      ((if messages.isEmpty then _ else _ : EStateM Error Db Unit) (db.write (cutOps db first)))
    by_cases none : messages.isEmpty
    · rw [if_pos none, if_pos none]
      exact .ok cut rfl
    · rw [if_neg none, if_neg none]
      exact writeNew_matches cut valid track first

/-- An append on bytes does what it does on the tables, unless an addition overflows. -/
theorem addMessagesAndEndBatchImpl_matches (lawful : rlp.Lawful) (persisted : Persisted rlp tree db)
    (valid : ∀ m ∈ messages, Valid m.messageWithMeta) (small : first < 2 ^ 64) (confirmed : Bool) (track : Option Nat) :
    Matches (Persisted rlp) Eq StorageError.Is (addMessagesAndEndBatchImpl rlp first confirmed messages track tree)
      (TransactionStreamer.addMessagesAndEndBatchImpl first confirmed messages track db) := by
  unfold addMessagesAndEndBatchImpl TransactionStreamer.addMessagesAndEndBatchImpl
  rw [bind_read, bind_read, messageCountOrZero_eq lawful persisted, bind_lift_ok]
  by_cases gap : TransactionStreamer.messageCountOrZero db ≠ first
  · rw [if_pos gap, if_pos gap]
    exact .error persisted rfl
  · rw [if_neg gap, if_neg gap]
    have counted := @countDuplicatesFrom_agrees rlp tree db messages lawful persisted first 0 small valid
      (if confirmed then some .new else none)
    change Agrees _ _ (countDuplicateMessages rlp tree first messages (if confirmed then some .new else none)) _ at counted
    generalize countDuplicateMessages rlp tree first messages (if confirmed then some .new else none) = count at counted ⊢
    have inside := (countDuplicateMessages_spec db first messages rfl).1
    generalize TransactionStreamer.countDuplicateMessages db first messages = typed at counted inside ⊢
    obtain ⟨dups, reorg⟩ := typed
    cases counted with
    | panic => exact .panic
    | ok same =>
      rename_i result
      obtain ⟨⟨dups', reorg', other⟩, batch⟩ := result
      obtain ⟨rfl, rfl⟩ : dups' = dups ∧ reorg' = reorg := ⟨same.1.trans (Nat.zero_add _), same.2⟩
      change Matches _ _ _ ((if !confirmed && reorg' then _ else _ : EStateM (Stop StorageError) SledDb Unit) tree)
        ((if !confirmed && reorg' then _ else _ : EStateM Error Db Unit) db)
      by_cases ignored : (!confirmed && reorg') = true
      · rw [if_pos ignored, if_pos ignored]
        exact .ok persisted rfl
      · rw [if_neg ignored, if_neg ignored]
        refine .ofPanic_bind fun idx added => ?_
        obtain ⟨next, rfl⟩ := add64_eq_ok.mp added
        rw [lastDelayedRead_eq lawful persisted inside next, bind_lift_ok]
        refine .bind (.lift (checkDelayedReads_agrees _ 0 _ _) persisted) fun _ _ tree' db' persisted' _ => ?_
        have fresh : ∀ m ∈ messages.drop dups', Valid m.messageWithMeta := fun m member =>
          valid m (List.mem_of_mem_drop member)
        by_cases conflict : reorg' = true
        · rw [if_pos conflict, if_pos conflict]
          exact addMessagesAndReorg_matches persisted' fresh next track
        · rw [if_neg conflict, if_neg conflict]
          by_cases none : (messages.drop dups').isEmpty
          · rw [if_pos none, if_pos none]
            exact .ok persisted' rfl
          · rw [if_neg none, if_neg none]
            exact writeNew_matches persisted' fresh track _

end NitroRs.SledStreamer
