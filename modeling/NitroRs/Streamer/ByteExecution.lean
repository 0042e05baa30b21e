import NitroRs.Streamer.ByteAppend
import NitroRs.Streamer.Execution

/-! Execution on the bytes of the database: the next message is read, digested and its result
stored as on the tables. -/
namespace NitroRs
open Checked KeyValue Outcome Simulation

/-- How an execution step on bytes fails. -/
inductive ExecError where
  | engine (cause : EngineError)
  | storage (cause : StorageError)

/-- The error of the model that has no bytes. -/
inductive ExecError.Is : ExecError → EngineError → Prop
  | engine (cause : EngineError) : ExecError.Is (.engine cause) cause
  | storage (cause : Error) : ExecError.Is (.storage (.node cause)) (.database cause)

structure SledExecNode where
  db : SledDb
  exec : RethExecEngine

namespace SledStreamer

section Source
variable (rlp : AlloyRlp)

def fromStorage {α : Type} (x : Except (Stop StorageError) α) : Except (Stop ExecError) α :=
  x.mapError fun
    | .error e => .error (.storage e)
    | .panic p => .panic p

/-- A computation of the engine alone. -/
def fromEngine {α : Type} (x : EStateM EngineError RethExecEngine α) : EStateM (Stop ExecError) RethExecEngine α :=
  fun s =>
    match x s with
    | .ok a s => .ok a s
    | .error e s => .error (.error (.engine e)) s

/-- The loop of `head_message_index`, down to the last message with a result. -/
def scanResults (db : SledDb) : Nat → Nat
  | 0 => 2 ^ 64 - 1
  | n + 1 => if db.has (dbKey messageResultPrefix (.ofNat n)) then n else scanResults db n

def headMessageIndex (db : SledDb) : Except (Stop StorageError) Nat := do
  let count ← db.readU64 rlp messageCountKey
  return scanResults db count

def parentHash (genesisHash : B256) (db : SledDb) (msgIdx : Nat) : Except (Stop StorageError) B256 :=
  if msgIdx = 0 then .ok genesisHash
  else do
    let data ← db.read (dbKey messageResultPrefix (.ofNat (msgIdx - 1)))
    let (prev, _) ← decoded (MessageResult.decode rlp data)
    return prev.blockHash

/-- `digest_message` up to its first call of the engine. -/
def beginDigest (db : SledDb) (msgIdx : Nat) (msg : MessageWithMetadata) :
    EStateM (Stop ExecError) RethExecEngine Digest := do
  let engine ← read
  if engine.beaconEngineHandle.isNone then throw (.error (.engine .missingBeaconHandle))
  else if engine.payloadBuilderHandle.isNone then throw (.error (.engine .missingBuilderHandle))
  else do
    let parent ← lift (fromStorage (parentHash rlp engine.genesisHash db msgIdx))
    let ts := RethExecEngine.nextTimestamp msg.message.header.timestamp engine.lastTimestamp
    update fun engine => { engine with lastTimestamp := ts }
    return ⟨msgIdx, msg, parent, ts⟩

def digestMessage [PayloadBuilder] (answers : EngineAnswers) (db : SledDb) (msgIdx : Nat) (msg : MessageWithMetadata)
    (_msgForPrefetch : Option MessageWithMetadata) : EStateM (Stop ExecError) RethExecEngine MessageResult := do
  let d ← beginDigest rlp db msgIdx msg
  fromEngine (RethExecEngine.finishDigest answers d)

/-- The index behind the last result; `u64::MAX` stands for none. -/
def nextMsgIdx (execHead : Nat) : Except (Stop StorageError) Nat :=
  if execHead = 2 ^ 64 - 1 then .ok 0 else ofPanic (add64 execHead 1)

/-- `execute_next_msg` up to the digest. -/
def pickNextMsg (db : SledDb) :
    Except (Stop StorageError) (Option (Nat × MessageWithMetadata × Option MessageWithMetadata)) := do
  let execHead ← headMessageIndex rlp db
  let msgIdx ← nextMsgIdx execHead
  let messageCount ← messageCountOrZero rlp db
  if messageCount ≤ msgIdx then return none
  else do
    let msgAndBlock ← getMessageWithMetadataAndBlockInfo rlp db msgIdx
    let next ← ofPanic (add64 msgIdx 1)
    if next < messageCount then do
      let prefetch ← getMessage rlp db next
      return some (msgIdx, msgAndBlock.messageWithMeta, some prefetch)
    else return some (msgIdx, msgAndBlock.messageWithMeta, none)

def storeResult (msgIdx : Nat) (res : MessageResult) (batch : SledBatch) : SledBatch :=
  batch.put (dbKey messageResultPrefix (.ofNat msgIdx)) (res.encode rlp)

def executeNextMsg [PayloadBuilder] (answers : EngineAnswers) : EStateM (Stop ExecError) SledExecNode Bool := do
  let n ← read
  let consensusHead ← lift (fromStorage (getHeadMessageIndex rlp n.db))
  match ← lift (fromStorage (pickNextMsg rlp n.db)) with
  | none => return false
  | some (msgIdx, msg, prefetch) => do
    let res ← zoom SledExecNode.exec (fun n exec => { n with exec }) (digestMessage rlp answers n.db msgIdx msg prefetch)
    update fun n => { n with db := (storeResult rlp msgIdx res .new).write n.db }
    let next ← lift (ofPanic (add64 msgIdx 1))
    return (next ≤ consensusHead : Bool)

end Source

variable {rlp : AlloyRlp} {tree : SledDb} {db : Db} {i n : Nat}

/-- The tables in bytes, and the same engine. -/
structure PersistedExec (rlp : AlloyRlp) (s : SledExecNode) (t : ExecNode) : Prop where
  db : Persisted rlp s.db t.db
  exec : s.exec = t.exec

theorem agrees_fromStorage {α : Type} (x : Except Error α) :
    Agrees Eq ExecError.Is (fromStorage (onBytes x)) (x.mapError EngineError.database) := by
  cases x with
  | ok a => exact .ok rfl
  | error e => exact .error (.storage e)

theorem scanResults_eq (persisted : Persisted rlp tree db) (small : n ≤ 2 ^ 64) :
    scanResults tree n = RethExecEngine.scanResults db n := by
  induction n with
  | zero => rfl
  | succ n ih =>
    have here := persisted.has_record .messageResult (i := n) (by omega)
    rw [Table.keyPrefix] at here
    rw [scanResults, RethExecEngine.scanResults, here, ih (by omega)]

theorem messageCountOrZero_lt (persisted : Persisted rlp tree db) :
    TransactionStreamer.messageCountOrZero db < 2 ^ 64 := by
  rw [TransactionStreamer.messageCountOrZero]
  cases found : db.count .messageCount with
  | none => exact Nat.two_pow_pos 64
  | some n => exact persisted.counts .messageCount n found

section
variable (lawful : rlp.Lawful) (persisted : Persisted rlp tree db)
include lawful persisted

theorem headMessageIndex_eq : headMessageIndex rlp tree = onBytes (RethExecEngine.headMessageIndex db) := by
  have count := persisted.readU64 lawful .messageCount
  rw [Counter.key] at count
  rw [headMessageIndex, RethExecEngine.headMessageIndex, count, Db.readCount]
  cases found : db.count .messageCount with
  | none => rfl
  | some n =>
    change Except.ok (scanResults tree n) = _
    rw [scanResults_eq persisted (Nat.le_of_lt (persisted.counts .messageCount n found))]
    rfl

theorem parentHash_eq (genesisHash : B256) (small : i < 2 ^ 64) :
    parentHash rlp genesisHash tree i = onBytes (RethExecEngine.parentHash genesisHash db i) := by
  rw [parentHash, RethExecEngine.parentHash]
  by_cases zero : i = 0
  · rw [if_pos zero, if_pos zero]
    rfl
  · have stored := persisted.read_record .messageResult (i := i - 1) (by omega)
    rw [Table.keyPrefix] at stored
    rw [if_neg zero, if_neg zero, stored]
    cases found : db.get .messageResult (i - 1) with
    | none => rfl
    | some prev =>
      have read := (MessageResult.codec_lawful lawful).decode_encode_nil prev
      change MessageResult.decode rlp (prev.encode rlp) = _ at read
      change (decoded (MessageResult.decode rlp (prev.encode rlp)) >>= _) = _
      rw [read]
      rfl

/-- The next message is the same on both sides. -/
theorem pickNextMsg_agrees : Agrees Eq StorageError.Is (pickNextMsg rlp tree) (TransactionStreamer.pickNextMsg db) := by
  rw [pickNextMsg, TransactionStreamer.pickNextMsg, headMessageIndex_eq lawful persisted,
    messageCountOrZero_eq lawful persisted]
  refine .bind (agrees_onBytes _) fun head head' same => ?_
  subst head'
  have index : Agrees Eq StorageError.Is (nextMsgIdx head)
      (.ok (if head = 2 ^ 64 - 1 then 0 else head + 1) : Except Error Nat) := by
    rw [nextMsgIdx]
    split
    · exact .ok rfl
    · cases added : add64 head 1 with
      | ok m => exact .ok (add64_eq_ok.mp added).2
      | error p => exact .panic
  refine .value_bind index fun idx same => ?_
  rw [← same]
  change Agrees _ _ (if TransactionStreamer.messageCountOrZero db ≤ idx then _ else _) (if _ then _ else _)
  have word := messageCountOrZero_lt persisted
  by_cases finished : TransactionStreamer.messageCountOrZero db ≤ idx
  · rw [if_pos finished, if_pos finished]
    exact .ok rfl
  · rw [if_neg finished, if_neg finished, getMessageWithMetadataAndBlockInfo_eq lawful persisted (by omega)]
    refine .bind (agrees_onBytes _) fun m m' same => ?_
    subst m'
    refine .ofPanic_bind fun next added => ?_
    obtain ⟨inside, rfl⟩ := add64_eq_ok.mp added
    by_cases more : idx + 1 < TransactionStreamer.messageCountOrZero db
    · rw [if_pos more, if_pos more, getMessage_eq lawful persisted inside]
      refine .bind (agrees_onBytes _) fun p p' same => ?_
      subst p'
      exact .ok rfl
    · rw [if_neg more, if_neg more]
      exact .ok rfl

theorem beginDigest_matches (msg : MessageWithMetadata) (small : i < 2 ^ 64) (engine : RethExecEngine) :
    Matches Eq Eq ExecError.Is (beginDigest rlp tree i msg engine) (RethExecEngine.beginDigest db i msg engine) := by
  unfold beginDigest RethExecEngine.beginDigest
  rw [bind_read, bind_read]
  by_cases beacon : engine.beaconEngineHandle.isNone
  · rw [if_pos beacon, if_pos beacon]
    exact .error rfl (.engine _)
  · rw [if_neg beacon, if_neg beacon]
    by_cases builder : engine.payloadBuilderHandle.isNone
    · rw [if_pos builder, if_pos builder]
      exact .error rfl (.engine _)
    · rw [if_neg builder, if_neg builder, parentHash_eq lawful persisted _ small]
      refine .bind (.lift (agrees_fromStorage _) rfl) fun parent parent' s t same equal => ?_
      subst same equal
      exact .ok rfl rfl

omit lawful persisted in
theorem fromEngine_matches {α : Type} (x : EStateM EngineError RethExecEngine α) (engine : RethExecEngine) :
    Matches Eq Eq ExecError.Is (fromEngine x engine) (x engine) := by
  unfold fromEngine
  cases x engine with
  | ok a s => exact .ok rfl rfl
  | error e s => exact .error rfl (.engine e)

theorem digestMessage_matches [PayloadBuilder] (answers : EngineAnswers) (msg : MessageWithMetadata)
    (prefetch : Option MessageWithMetadata) (small : i < 2 ^ 64) (engine : RethExecEngine) :
    Matches Eq Eq ExecError.Is (digestMessage rlp answers tree i msg prefetch engine)
      (RethExecEngine.digestMessage answers db i msg prefetch engine) := by
  refine .bind (beginDigest_matches lawful persisted msg small engine) fun d d' s t same equal => ?_
  subst same equal
  exact fromEngine_matches _ _

end

theorem storeResult_ops (msgIdx : Nat) (res : MessageResult) : storeResult rlp msgIdx res .new =
    ⟨(TransactionStreamer.storeResult msgIdx res).map (storageEncoding rlp).op⟩ := rfl

theorem pickNextMsg_lt (persisted : Persisted rlp tree db) {idx : Nat} {msg : MessageWithMetadata}
    {prefetch : Option MessageWithMetadata} (picked : TransactionStreamer.pickNextMsg db = .ok (some (idx, msg, prefetch))) :
    idx < 2 ^ 64 := by
  have word := messageCountOrZero_lt persisted
  obtain ⟨head, _, picked⟩ := except_bind_eq_ok.mp picked
  change (if _ ≤ (if head = 2 ^ 64 - 1 then 0 else head + 1) then _ else _) = _ at picked
  generalize (if head = 2 ^ 64 - 1 then 0 else head + 1) = next at picked
  split at picked
  · cases picked
  · rename_i inside
    obtain ⟨m, _, picked⟩ := except_bind_eq_ok.mp picked
    split at picked
    · obtain ⟨p, _, picked⟩ := except_bind_eq_ok.mp picked
      cases picked
      omega
    · cases picked
      omega

/-- An execution step on bytes does what it does on the tables, unless an addition overflows. -/
theorem executeNextMsg_matches [PayloadBuilder] (lawful : rlp.Lawful) (answers : EngineAnswers) {s : SledExecNode}
    {t : ExecNode} (same : PersistedExec rlp s t) : Matches (PersistedExec rlp) Eq ExecError.Is
      (executeNextMsg rlp answers s) (TransactionStreamer.executeNextMsg answers t) := by
  obtain ⟨tree, engine⟩ := s
  obtain ⟨db, engine'⟩ := t
  obtain ⟨persisted, rfl⟩ := same
  unfold executeNextMsg TransactionStreamer.executeNextMsg
  rw [bind_read, bind_read, getHeadMessageIndex_eq lawful persisted]
  cases TransactionStreamer.getHeadMessageIndex db with
  | error e => exact .error ⟨persisted, rfl⟩ (.storage e)
  | ok head =>
    simp only [onBytes_ok, fromStorage, Except.mapError, bind_lift_ok]
    have same := pickNextMsg_agrees lawful persisted
    have inside {idx msg prefetch} := @pickNextMsg_lt rlp tree db persisted idx msg prefetch
    generalize pickNextMsg rlp tree = picked at same ⊢
    generalize TransactionStreamer.pickNextMsg db = picked' at same inside ⊢
    cases same with
    | panic => exact .panic
    | error cause =>
      subst cause
      exact .error ⟨persisted, rfl⟩ (.storage _)
    | ok equal =>
      subst equal
      rename_i next
      cases next with
      | none => exact .ok ⟨persisted, rfl⟩ rfl
      | some next =>
        obtain ⟨idx, msg, prefetch⟩ := next
        have small := inside rfl
        have digested := digestMessage_matches lawful persisted answers msg prefetch small engine
        simp only [bind_lift_ok]
        have whole (u v : RethExecEngine) (equal : u = v) : PersistedExec rlp ⟨tree, u⟩ ⟨db, v⟩ := ⟨persisted, equal⟩
        refine .bind (.zoom (R := Eq) digested whole) fun res res' s t related equal => ?_
        subst res'
        refine .ofPanic_bind fun after added => ?_
        obtain ⟨_, rfl⟩ := add64_eq_ok.mp added
        refine .ok ⟨?_, related.exec⟩ rfl
        rw [storeResult_ops]
        exact related.db.write (List.forall_mem_singleton.mpr ⟨small, trivial⟩)

end SledStreamer
end NitroRs
