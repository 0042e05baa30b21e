import NitroRs.Inbox.Multiplexer
import NitroRs.Streamer.Streamer

/-! Execution: the streamer hands the stored messages one by one to the engine
adapter, which builds a block for each of them. The consensus engine answers as
it likes; only the block that a payload resolves to is a function. -/
namespace NitroRs
open KeyValue Outcome

structure BuiltBlock where
  hash : B256
  timestamp : UInt64
  extraData : Bytes

/-- Payload building, as a function of parent hash, timestamp and message. -/
class PayloadBuilder where
  build : B256 → UInt64 → MessageWithMetadata → BuiltBlock

inductive PayloadStatus where
  | valid
  | invalid
  | syncing
  | accepted
  deriving DecidableEq

def PayloadStatus.isInvalid (status : PayloadStatus) : Bool := status = .invalid

/-- The errors of an execution step, by the text that the source gives them. -/
inductive EngineError where
  | database (cause : Error)
  /-- "missing beacon engine handle" -/
  | missingBeaconHandle
  /-- "missing payload builder handle" -/
  | missingBuilderHandle
  /-- "engine initial fork_choice_updated error" -/
  | initialForkchoice
  /-- "engine pre fork_choice_updated error" -/
  | preForkchoice
  /-- "engine pre fork_choice_updated invalid: {status}" -/
  | preForkchoiceInvalid (status : PayloadStatus)
  /-- "engine fork_choice_updated(with attrs) error" -/
  | attributesForkchoice
  /-- "engine fork_choice_updated with attrs invalid: {status}" -/
  | attributesForkchoiceInvalid (status : PayloadStatus)
  /-- "failed to get payload id: {e}" -/
  | payloadId
  /-- "failed to get payload id: channel closed" -/
  | payloadIdChannelClosed
  /-- "payload resolve channel closed", or the error of the resolved payload -/
  | payloadResolve
  /-- "engine fork_choice_updated error" -/
  | finalForkchoice
  /-- "engine fork_choice_updated not valid/syncing: {status}" -/
  | finalForkchoiceNotValid (status : PayloadStatus)

/-- The answer of `send_new_payload`; a refusal may complain of a missing parent header. -/
inductive SendAnswer where
  | sent
  | refused (missingParent : Bool)
  | closed

/-- What the consensus engine and the payload builder answer during one digest. -/
structure EngineAnswers where
  seedForkchoice : Except EngineError Unit
  preForkchoice : Except EngineError PayloadStatus
  attributesForkchoice : Except EngineError PayloadStatus
  sendNewPayload : Nat → SendAnswer
  resolvePayload : Except EngineError Unit
  finalForkchoice : Except EngineError PayloadStatus

/-- Every call succeeds at once. -/
def EngineAnswers.allValid : EngineAnswers :=
  ⟨.ok (), .ok .valid, .ok .valid, fun _ => .sent, .ok (), .ok .valid⟩

structure RethExecEngine where
  beaconEngineHandle : Option Unit
  payloadBuilderHandle : Option Unit
  genesisHash : B256
  lastTimestamp : UInt64

/-- A digest between its start and its end: the engine has read the parent and
chosen the timestamp of the new block. -/
structure Digest where
  msgIdx : Nat
  msg : MessageWithMetadata
  parentHash : B256
  timestamp : UInt64
  deriving DecidableEq

namespace RethExecEngine

def new (genesisHash : B256) (genesisTimestamp : UInt64) : RethExecEngine :=
  ⟨none, none, genesisHash, genesisTimestamp⟩

def newWithHandles (genesisHash : B256) (genesisTimestamp : UInt64) : RethExecEngine :=
  ⟨some (), some (), genesisHash, genesisTimestamp⟩

/-- The loop of `head_message_index`, down to the last message with a result. -/
def scanResults (db : Db) : Nat → Nat
  | 0 => 2 ^ 64 - 1
  | n + 1 => if db.has .messageResult n then n else scanResults db n

def headMessageIndex (db : Db) : Except Error Nat := do
  let count ← db.readCount .messageCount
  return scanResults db count

/-- The timestamp attribute: the message's own, unless the clock has passed it. -/
def nextTimestamp (ts prev : UInt64) : UInt64 := if ts ≤ prev then saturatingAdd prev 1 else ts

def parentHash (genesisHash : B256) (db : Db) (msgIdx : Nat) : Except Error B256 :=
  if msgIdx = 0 then .ok genesisHash
  else
    match db.get .messageResult (msgIdx - 1) with
    | some prev => .ok prev.blockHash
    | none => .error .notFound

/-- `digest_message` up to its first call of the engine. -/
def beginDigest (db : Db) (msgIdx : Nat) (msg : MessageWithMetadata) :
    EStateM EngineError RethExecEngine Digest := do
  let engine ← read
  if engine.beaconEngineHandle.isNone then throw .missingBeaconHandle
  else if engine.payloadBuilderHandle.isNone then throw .missingBuilderHandle
  else
    let parent ← lift ((parentHash engine.genesisHash db msgIdx).mapError .database)
    let ts := nextTimestamp msg.message.header.timestamp engine.lastTimestamp
    update fun engine => { engine with lastTimestamp := ts }
    return ⟨msgIdx, msg, parent, ts⟩

/-- The loop around `send_new_payload`. -/
def sendLoop (answer : Nat → SendAnswer) : Nat → Nat → Except EngineError Unit
  | 0, _ => .error .payloadId
  | fuel + 1, attempts =>
    match answer attempts with
    | .sent => .ok ()
    | .refused missingParent =>
      if missingParent && attempts < 60 then sendLoop answer fuel (attempts + 1)
      else .error .payloadId
    | .closed =>
      if attempts < 10 then sendLoop answer fuel (attempts + 1) else .error .payloadIdChannelClosed

def sendRoot (block : BuiltBlock) : B256 :=
  if enough : 32 ≤ block.extraData.length then ⟨block.extraData.take 32, by simp [enough]⟩ else .zero

def resultOf (block : BuiltBlock) : MessageResult := ⟨block.hash, sendRoot block⟩

/-- The calls of the engine during a digest, in order. -/
def callEngine (answers : EngineAnswers) (msgIdx : Nat) : Except EngineError Unit := do
  if msgIdx = 0 then answers.seedForkchoice
  let pre ← answers.preForkchoice
  if pre.isInvalid then throw (.preForkchoiceInvalid pre)
  let attributes ← answers.attributesForkchoice
  if attributes.isInvalid then throw (.attributesForkchoiceInvalid attributes)
  -- at most 60 retries, each of which counts as an attempt
  sendLoop answers.sendNewPayload 61 0
  answers.resolvePayload
  let status ← answers.finalForkchoice
  if status ≠ .valid ∧ status ≠ .syncing then throw (.finalForkchoiceNotValid status)

/-- `digest_message` from its first call of the engine on. -/
def finishDigest [PayloadBuilder] (answers : EngineAnswers) (d : Digest) :
    EStateM EngineError RethExecEngine MessageResult := do
  lift (callEngine answers d.msgIdx)
  let block := PayloadBuilder.build d.parentHash d.timestamp d.msg
  update fun engine => { engine with lastTimestamp := max engine.lastTimestamp block.timestamp }
  return resultOf block

def digestMessage [PayloadBuilder] (answers : EngineAnswers) (db : Db) (msgIdx : Nat)
    (msg : MessageWithMetadata) (_msgForPrefetch : Option MessageWithMetadata) :
    EStateM EngineError RethExecEngine MessageResult := do
  let d ← beginDigest db msgIdx msg
  finishDigest answers d

end RethExecEngine

/-- The streamer's database with the engine adapter that executes its messages. -/
structure ExecNode where
  db : Db
  exec : RethExecEngine

namespace TransactionStreamer

/-- `execute_next_msg` up to the digest: the index, the message and the one after it. -/
def pickNextMsg (db : Db) : Except Error (Option (Nat × MessageWithMetadata × Option MessageWithMetadata)) := do
  let execHead ← RethExecEngine.headMessageIndex db
  let msgIdx := if execHead = 2 ^ 64 - 1 then 0 else execHead + 1
  let messageCount := messageCountOrZero db
  if messageCount ≤ msgIdx then return none
  else
    let msgAndBlock ← getMessageWithMetadataAndBlockInfo db msgIdx
    if msgIdx + 1 < messageCount then
      let prefetch ← getMessage db (msgIdx + 1)
      return some (msgIdx, msgAndBlock.messageWithMeta, some prefetch)
    else return some (msgIdx, msgAndBlock.messageWithMeta, none)

def storeResult (msgIdx : Nat) (res : MessageResult) : List DbOp := [.put .messageResult msgIdx res]

def onEngine {α : Type} (x : EStateM EngineError RethExecEngine α) : EStateM EngineError ExecNode α :=
  zoom ExecNode.exec (fun n exec => { n with exec }) x

def executeNextMsg [PayloadBuilder] (answers : EngineAnswers) : EStateM EngineError ExecNode Bool := do
  let n ← read
  let consensusHead ← lift ((getHeadMessageIndex n.db).mapError .database)
  match ← lift ((pickNextMsg n.db).mapError .database) with
  | none => return false
  | some (msgIdx, msg, prefetch) =>
    let res ← onEngine (RethExecEngine.digestMessage answers n.db msgIdx msg prefetch)
    update fun n => { n with db := n.db.write (storeResult msgIdx res) }
    return (msgIdx + 1 ≤ consensusHead : Bool)

end TransactionStreamer

open RethExecEngine TransactionStreamer

/-- A result is the digest of a message on top of a parent, at some timestamp. -/
def Digested [PayloadBuilder] (parent : B256) (msg : MessageWithMetadata) (res : MessageResult) : Prop :=
  ∃ ts, res = resultOf (PayloadBuilder.build parent ts msg)

/-- What a digest reads before it calls the engine; it fails before the clock moves. -/
theorem beginDigest_cases (db : Db) (msgIdx : Nat) (msg : MessageWithMetadata) (engine : RethExecEngine) :
    (∃ parent, parentHash engine.genesisHash db msgIdx = .ok parent ∧
      beginDigest db msgIdx msg engine = .ok
        ⟨msgIdx, msg, parent, nextTimestamp msg.message.header.timestamp engine.lastTimestamp⟩
        { engine with
          lastTimestamp := nextTimestamp msg.message.header.timestamp engine.lastTimestamp }) ∨
    ∃ e, beginDigest db msgIdx msg engine = .error e engine := by
  unfold beginDigest
  rw [bind_read]
  split
  · exact .inr ⟨_, rfl⟩
  · split
    · exact .inr ⟨_, rfl⟩
    · cases found : parentHash engine.genesisHash db msgIdx with
      | error e => exact .inr ⟨_, rfl⟩
      | ok parent => exact .inl ⟨parent, rfl, rfl⟩

theorem beginDigest_eq_ok {db : Db} {msgIdx : Nat} (msg : MessageWithMetadata) {engine : RethExecEngine}
    (beacon : engine.beaconEngineHandle = some ()) (builder : engine.payloadBuilderHandle = some ())
    {parent : B256} (found : parentHash engine.genesisHash db msgIdx = .ok parent) :
    beginDigest db msgIdx msg engine = .ok
      ⟨msgIdx, msg, parent, nextTimestamp msg.message.header.timestamp engine.lastTimestamp⟩
      { engine with
        lastTimestamp := nextTimestamp msg.message.header.timestamp engine.lastTimestamp } := by
  have beacon' : engine.beaconEngineHandle.isNone = false := by rw [beacon]; rfl
  have builder' : engine.payloadBuilderHandle.isNone = false := by rw [builder]; rfl
  unfold beginDigest
  rw [bind_read, beacon', builder', found]
  rfl

theorem finishDigest_cases [PayloadBuilder] (answers : EngineAnswers) (d : Digest)
    (engine : RethExecEngine) :
    (callEngine answers d.msgIdx = .ok () ∧ finishDigest answers d engine =
      .ok (resultOf (PayloadBuilder.build d.parentHash d.timestamp d.msg)) { engine with
        lastTimestamp := max engine.lastTimestamp
          (PayloadBuilder.build d.parentHash d.timestamp d.msg).timestamp }) ∨
    ∃ e, callEngine answers d.msgIdx = .error e ∧ finishDigest answers d engine = .error e engine := by
  unfold finishDigest
  cases called : callEngine answers d.msgIdx with
  | error e => exact .inr ⟨e, rfl, rfl⟩
  | ok _ => exact .inl ⟨rfl, rfl⟩

/-- How an execution step ends: without a message to execute or with a failure, which
change nothing in the database, or with one more result. -/
theorem executeNextMsg_cases [PayloadBuilder] (answers : EngineAnswers) (n : ExecNode) :
    (∃ msgIdx msg prefetch d engine r engine', pickNextMsg n.db = .ok (some (msgIdx, msg, prefetch)) ∧
      beginDigest n.db msgIdx msg n.exec = .ok d engine ∧
      finishDigest answers d engine = .ok r engine' ∧
      final (executeNextMsg answers n) = ⟨n.db.write (storeResult msgIdx r), engine'⟩) ∨
    (∃ msgIdx msg prefetch d engine e engine', pickNextMsg n.db = .ok (some (msgIdx, msg, prefetch)) ∧
      beginDigest n.db msgIdx msg n.exec = .ok d engine ∧
      finishDigest answers d engine = .error e engine' ∧
      final (executeNextMsg answers n) = ⟨n.db, engine'⟩) ∨
    final (executeNextMsg answers n) = n := by
  unfold executeNextMsg
  rw [bind_read]
  cases head : (getHeadMessageIndex n.db).mapError EngineError.database with
  | error e => exact .inr (.inr rfl)
  | ok consensusHead =>
    rw [bind_lift_ok]
    cases picked : pickNextMsg n.db with
    | error e => exact .inr (.inr rfl)
    | ok next =>
      cases next with
      | none => exact .inr (.inr rfl)
      | some next =>
        obtain ⟨msgIdx, msg, prefetch⟩ := next
        change _ ∨ _ ∨ final ((onEngine (digestMessage answers n.db msgIdx msg prefetch) >>= _) n) = n
        cases began : beginDigest n.db msgIdx msg n.exec with
        | error e engine =>
          have kept : engine = n.exec := by
            rcases beginDigest_cases n.db msgIdx msg n.exec with ⟨_, _, done⟩ | ⟨_, failed⟩
            · rw [done] at began
              contradiction
            · rw [failed] at began
              cases began
              rfl
          subst kept
          have digested : onEngine (digestMessage answers n.db msgIdx msg prefetch) n = .error e n :=
            zoom_error (bind_error began)
          rw [bind_error digested]
          exact .inr (.inr rfl)
        | ok d engine =>
          cases finished : finishDigest answers d engine with
          | ok r engine' =>
            have digested : onEngine (digestMessage answers n.db msgIdx msg prefetch) n =
                .ok r { n with exec := engine' } := zoom_ok ((bind_ok began).trans finished)
            refine .inl ⟨msgIdx, msg, prefetch, d, engine, r, engine', rfl, began, finished, ?_⟩
            change final ((onEngine (digestMessage answers n.db msgIdx msg prefetch) >>= _) n) = _
            rw [bind_ok digested]
            rfl
          | error e engine' =>
            have digested : onEngine (digestMessage answers n.db msgIdx msg prefetch) n =
                .error e { n with exec := engine' } := zoom_error ((bind_ok began).trans finished)
            refine .inr (.inl ⟨msgIdx, msg, prefetch, d, engine, e, engine', rfl, began, finished, ?_⟩)
            change final ((onEngine (digestMessage answers n.db msgIdx msg prefetch) >>= _) n) = _
            rw [bind_error digested]
            rfl

end NitroRs
