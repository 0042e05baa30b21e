import NitroRs.Inbox.CombinedRuns
import NitroRs.Lib.Hex
import NitroRs.Streamer.DuplicateCount
import NitroRs.Streamer.MessageLog

/-! The RPC backend: messages that arrive as JSON values, and the calls of the streamer that they
become. -/
namespace NitroRs
open Hex KeyValue Outcome RethExecEngine Simulation TransactionStreamer

/-- `serde_json::Value`, with the numbers that are a `u64` and the others. -/
inductive Json where
  | null
  | bool (b : Bool)
  | number (n : UInt64)
  | otherNumber
  | string (s : Text)
  | array (items : List Json)
  | object (fields : List (String × Json))

namespace Json

def isNull : Json → Bool
  | null => true
  | _ => false

def asU64 : Json → Option UInt64
  | number n => some n
  | _ => none

def asStr : Json → Option Text
  | string s => some s
  | _ => none

def asObject : Json → Option (List (String × Json))
  | object fields => some fields
  | _ => none

end Json

/-- The errors of the backend: its own texts, and those of what it calls. -/
inductive RpcError where
  | text (message : String)
  /-- an error of `Vec::from_hex` -/
  | fromHex
  /-- an error of a `from_str` -/
  | fromStr
  | streamer (cause : Error)

/-- `U256::from_str`. -/
class U256Parser where
  u256FromStr : Text → Option U256

export U256Parser (u256FromStr)

namespace NitroRpcBackend

def orText {α : Type} (x : Option α) (message : String) : Except RpcError α := x.elim (.error (.text message)) .ok

def parseHexBytes (s : Text) : Except RpcError Bytes := (decode (trimPrefix s)).elim (.error .fromHex) .ok

def fromStr {α : Type} (x : Option α) : Except RpcError α := x.elim (.error .fromStr) .ok

def parseOptB256 (v : Json) : Except RpcError (Option B256) :=
  if v.isNull then .ok none
  else do
    let s ← orText v.asStr "expected hex string"
    let b ← fromStr (fixedFromStr 32 s)
    return some b

/-- The `requestId` of a header: an absent or null one is none. -/
def parseRequestId (v : Option Json) : Except RpcError (Option B256) :=
  match v with
  | none => .ok none
  | some x =>
    if x.isNull then .ok none
    else do
      let s ← orText x.asStr "requestId not string"
      let id ← fromStr (fixedFromStr 32 s)
      return some id

/-- The `l1BaseFee` of a header: a text, a number, or zero where it is absent. -/
def parseL1BaseFee [U256Parser] (v : Option Json) : Except RpcError U256 :=
  match v with
  | some (.string s) => fromStr (u256FromStr s)
  | some (.number n) => .ok (.ofNat 256 n.toNat)
  | some _ => .error (.text "l1BaseFee invalid")
  | none => .ok 0

def parseBlockMetadata (v : Option Json) : Except RpcError (Option Bytes) :=
  match v with
  | none => .ok none
  | some x =>
    if x.isNull then .ok none
    else do
      let s ← orText x.asStr "blockMetadata not string"
      let bytes ← parseHexBytes s
      return some bytes

def parseMsgWithMetaAndBlock [U256Parser] (val : Json) : Except RpcError MessageWithMetadataAndBlockInfo := do
  let obj ← orText val.asObject "expected object"
  let delayed ← orText ((obj.lookup "delayedMessagesRead").bind Json.asU64) "missing delayedMessagesRead"
  let msgV ← orText (obj.lookup "message") "missing message"
  let msgObj ← orText msgV.asObject "message not object"
  let headerV ← orText (msgObj.lookup "header") "missing header"
  let headerObj ← orText headerV.asObject "header not object"
  let kind ← orText ((headerObj.lookup "kind").bind Json.asU64) "missing kind"
  let posterS ← orText ((headerObj.lookup "poster").bind Json.asStr) "missing poster"
  let poster ← fromStr (fixedFromStr 20 posterS)
  let blockNumber ← orText ((headerObj.lookup "blockNumber").bind Json.asU64) "missing blockNumber"
  let timestamp ← orText ((headerObj.lookup "timestamp").bind Json.asU64) "missing timestamp"
  let requestId ← parseRequestId (headerObj.lookup "requestId")
  let l1BaseFee ← parseL1BaseFee (headerObj.lookup "l1BaseFee")
  let l2msgS ← orText ((msgObj.lookup "l2msg").bind Json.asStr) "missing l2msg"
  let l2msg ← parseHexBytes l2msgS
  let batchGasCost := (msgObj.lookup "batchGasCost").bind Json.asU64
  -- the kind is cut to a byte
  let header : L1IncomingMessageHeader := ⟨kind.toUInt8, poster, blockNumber, timestamp, requestId, l1BaseFee⟩
  let blockHash ← (obj.lookup "blockHash").elim (.ok none) parseOptB256
  let blockMetadata ← parseBlockMetadata (obj.lookup "blockMetadata")
  return ⟨⟨⟨header, l2msg, batchGasCost⟩, delayed.toNat⟩, blockHash, blockMetadata⟩

/-- A call of the streamer, with its error as a text. -/
def onStreamer {α : Type} (x : EStateM Error Db α) : EStateM RpcError Db α := fun db =>
  match x db with
  | .ok a db => .ok a db
  | .error e db => .error (.streamer e) db

/-- The result at an index, or zeros. -/
def resultOrZero (db : Db) (index : Nat) : MessageResult := (db.get .messageResult index).getD ⟨.zero, .zero⟩

def newMessage [U256Parser] (msgIdx : Nat) (msg : Json) : EStateM RpcError Db MessageResult := do
  let parsed ← lift (parseMsgWithMetaAndBlock msg)
  onStreamer (addMessagesAndEndBatch msgIdx [parsed] none)
  let db ← read
  return resultOrZero db msgIdx

def reorg [U256Parser] (firstMsgToAdd : Nat) (newMessages : List Json) : EStateM RpcError Db (List MessageResult) := do
  let parsed ← lift (newMessages.mapM parseMsgWithMetaAndBlock)
  onStreamer (addMessagesAndReorg firstMsgToAdd parsed none)
  let db ← read
  return (List.range parsed.length).map fun i => resultOrZero db (firstMsgToAdd + i)

def resultAtMessageIndex (db : Db) (msgIdx : Nat) : Except RpcError MessageResult :=
  orText (db.get .messageResult msgIdx) "result not found"

def nextDelayedMessageNumber (db : Db) : Except RpcError Nat := (db.readCount .delayedMessageCount).mapError .streamer

end NitroRpcBackend
open NitroRpcBackend

/-- The calls of the backend, and those of the node itself in between. -/
inductive RpcCall where
  | newMessage (msgIdx : Nat) (msg : Json)
  | reorg (firstMsgToAdd : Nat) (newMessages : List Json)
  | headMessageIndex
  | resultAtMessageIndex (msgIdx : Nat)
  | nextDelayedMessageNumber
  | node (c : LogCall)

inductive RpcAnswer where
  | result (r : Except RpcError MessageResult)
  | results (r : Except RpcError (List MessageResult))
  | number (r : Except RpcError Nat)
  | node (r : Except EngineError LogAnswer)

def RpcCall.reorgsAt : RpcCall → Option Nat
  | .reorg first _ => some first
  | .node c => c.reorgsAt
  | _ => none

section
variable [PayloadBuilder] [U256Parser]

namespace ExecNode

/-- The calls on the tables. -/
def rpc (c : RpcCall) (n : ExecNode) : RpcAnswer × ExecNode :=
  match c with
  | .newMessage msgIdx msg =>
    (.result (ending (newMessage msgIdx msg n.db)), { n with db := final (newMessage msgIdx msg n.db) })
  | .reorg first messages =>
    (.results (ending (reorg first messages n.db)), { n with db := final (reorg first messages n.db) })
  | .headMessageIndex => (.number ((getHeadMessageIndex n.db).mapError .streamer), n)
  | .resultAtMessageIndex msgIdx => (.result (resultAtMessageIndex n.db msgIdx), n)
  | .nextDelayedMessageNumber => (.number (nextDelayedMessageNumber n.db), n)
  | .node c => (.node (n.call c).1, (n.call c).2)

omit [PayloadBuilder] [U256Parser] in
/-- A reorg starts at a message of the log, or right behind the last one; the count stays a `u64`. -/
def RpcAllowed (c : RpcCall) (n : ExecNode) : Prop :=
  messageCountOrZero n.db < 2 ^ 64 ∧ ∀ first ∈ c.reorgsAt, first ≤ messageCountOrZero n.db

omit [PayloadBuilder] [U256Parser] in
instance (c : RpcCall) (n : ExecNode) : Decidable (n.RpcAllowed c) := inferInstanceAs (Decidable (_ ∧ _))

end ExecNode

namespace LogNode

/-- What the calls are for: a message that is accepted has no result yet. -/
def rpc (delayed : Nat) (c : RpcCall) (l : LogNode) : RpcAnswer × LogNode :=
  match c with
  | .newMessage msgIdx msg =>
    match parseMsgWithMetaAndBlock msg with
    | .error e => (.result (.error e), l)
    | .ok m =>
      let (accepted, l) := l.append msgIdx [m] none
      (.result ((accepted.map fun _ => ⟨.zero, .zero⟩).mapError .streamer), l)
  | .reorg first messages =>
    match messages.mapM parseMsgWithMetaAndBlock with
    | .error e => (.results (.error e), l)
    | .ok ms =>
      let (accepted, l) := l.reorg first ms none
      (.results ((accepted.map fun _ => List.replicate ms.length ⟨.zero, .zero⟩).mapError .streamer), l)
  | .headMessageIndex => (.number (.ok (if l.log.entries.length = 0 then 2 ^ 64 - 1 else l.log.entries.length - 1)), l)
  | .resultAtMessageIndex msgIdx => (.result (orText l.log.results[msgIdx]? "result not found"), l)
  | .nextDelayedMessageNumber => (.number (.ok delayed), l)
  | .node c => (.node (l.call c).1, (l.call c).2)

end LogNode

namespace LogNode

omit [PayloadBuilder] [U256Parser] in
theorem append_ok {l : LogNode} {first : Nat} {ms : List MessageWithMetadataAndBlockInfo} {track : Option Nat}
    (accepted : (l.append first ms track).1 = .ok ()) : (l.append first ms track).2.log.results.length ≤ first := by
  unfold append at accepted ⊢
  split at accepted
  · cases accepted
  · rename_i at_
    rw [if_neg at_]
    rw [not_not] at at_
    split at accepted
    · cases accepted
    · exact l.log.executed.trans_eq at_.symm

omit [PayloadBuilder] [U256Parser] in
theorem reorg_ok {l : LogNode} {first : Nat} {ms : List MessageWithMetadataAndBlockInfo} {track : Option Nat}
    (accepted : (l.reorg first ms track).1 = .ok ()) : (l.reorg first ms track).2.log.results.length ≤ first := by
  unfold reorg at accepted ⊢
  split at accepted
  · cases accepted
  · rename_i init
    rw [if_neg init]
    exact List.length_take_le first _

end LogNode

omit [U256Parser] in
/-- A call of the node leaves the tracker's side of the database alone. -/
theorem ExecNode.call_frame (c : LogCall) (n : ExecNode) : Agree .tracker n.db (n.call c).2.db := by
  cases c with
  | addMessagesAndEndBatch first ms track => exact addMessagesAndEndBatchImpl_frame first false ms track n.db
  | addConfirmedMessagesAndEndBatch first ms track => exact addMessagesAndEndBatchImpl_frame first true ms track n.db
  | addMessagesAndReorg first ms track => exact addMessagesAndReorg_frame first ms track n.db
  | reorgAtAndEndBatch first => exact addMessagesAndReorg_frame first [] none n.db
  | executeNextMsg answers =>
    have step : (n.call (.executeNextMsg answers)).2 = final (executeNextMsg answers n) := by
      rw [ExecNode.call]
      cases executeNextMsg answers n <;> rfl
    rw [step]
    rcases executeNextMsg_cases answers n with
      ⟨msgIdx, _, _, _, _, r, _, _, _, _, same⟩ | ⟨_, _, _, _, _, _, _, _, _, _, same⟩ | same
    · rw [same]
      refine .write fun op member => ?_
      obtain rfl := List.mem_singleton.mp member
      rintro ⟨⟩
    · rw [same]
    · rw [same]
  | getMessageCount | getHeadMessageIndex | headMessageIndex | getMessageWithMetadataAndBlockInfo | resultAtMessageIndex =>
    exact .refl _ _

omit [PayloadBuilder] [U256Parser] in
/-- A call of the streamer, and an answer that is read behind it. -/
theorem onStreamer_read {α : Type} (x : EStateM Error Db Unit) (f : Db → α) (db : Db) :
    final ((do onStreamer x; let db ← read; return f db : EStateM RpcError Db α) db) = final (x db) ∧
    ending ((do onStreamer x; let db ← read; return f db : EStateM RpcError Db α) db) =
      ((ending (x db)).map fun _ => f (final (x db))).mapError .streamer := by
  cases ran : x db with
  | ok a db' =>
    have called : onStreamer x db = .ok a db' := by rw [onStreamer, ran]
    rw [bind_ok called]
    exact ⟨rfl, rfl⟩
  | error e db' =>
    have called : onStreamer x db = .error (.streamer e) db' := by rw [onStreamer, ran]
    rw [bind_error called]
    exact ⟨rfl, rfl⟩

/-- The tables hold a log, and the tracker's count of delayed messages. -/
structure StoresRpc (delayed : Nat) (n : ExecNode) (l : LogNode) : Prop where
  log : StoresLog n l
  delayed : n.db.count .delayedMessageCount = some delayed

namespace StoresRpc
variable {delayed : Nat} {n : ExecNode} {l : LogNode}

omit [PayloadBuilder] [U256Parser] in
/-- Past the results of the log the answer is made of zeros. -/
theorem resultOrZero (stores : StoresLog n l) {i : Nat} (past : l.log.results.length ≤ i) :
    resultOrZero n.db i = ⟨.zero, .zero⟩ := by
  rw [NitroRpcBackend.resultOrZero, stores.result, List.getElem?_eq_none past, Option.getD_none]

theorem newMessage (stores : StoresRpc delayed n l) (msgIdx : Nat) (msg : Json) :
    StoresRpc delayed (n.rpc (.newMessage msgIdx msg)).2 (l.rpc delayed (.newMessage msgIdx msg)).2 ∧
      (n.rpc (.newMessage msgIdx msg)).1 = (l.rpc delayed (.newMessage msgIdx msg)).1 := by
  unfold ExecNode.rpc LogNode.rpc
  dsimp only [NitroRpcBackend.newMessage]
  cases parsed : parseMsgWithMetaAndBlock msg with
  | error e => exact ⟨stores, rfl⟩
  | ok m =>
    have changed := stores.log.append msgIdx false [m] none
    have frame := addMessagesAndEndBatchImpl_frame msgIdx false [m] none n.db
    obtain ⟨left, ended⟩ := onStreamer_read (addMessagesAndEndBatch msgIdx [m] none)
      (NitroRpcBackend.resultOrZero · msgIdx) n.db
    rw [bind_lift_ok, left, ended]
    refine ⟨⟨changed.1, (frame.count .delayedMessageCount rfl).trans stores.delayed⟩, ?_⟩
    change RpcAnswer.result (((ending (addMessagesAndEndBatchImpl msgIdx false [m] none n.db)).map fun _ => _).mapError _) = _
    rw [changed.2]
    dsimp only
    cases accepted : (l.append msgIdx [m] none).1 with
    | error e => rfl
    | ok done =>
      have fresh := resultOrZero changed.1 (l.append_ok accepted)
      exact congrArg (RpcAnswer.result ∘ Except.ok) fresh

theorem reorg (stores : StoresRpc delayed n l) {first : Nat} (inside : first ≤ l.log.entries.length)
    (messages : List Json) : StoresRpc delayed (n.rpc (.reorg first messages)).2 (l.rpc delayed (.reorg first messages)).2 ∧
      (n.rpc (.reorg first messages)).1 = (l.rpc delayed (.reorg first messages)).1 := by
  unfold ExecNode.rpc LogNode.rpc
  dsimp only [NitroRpcBackend.reorg]
  cases parsed : messages.mapM parseMsgWithMetaAndBlock with
  | error e => exact ⟨stores, rfl⟩
  | ok ms =>
    have changed := stores.log.reorg inside ms none
    have frame := addMessagesAndReorg_frame first ms none n.db
    obtain ⟨left, ended⟩ := onStreamer_read (addMessagesAndReorg first ms none)
      (fun db => (List.range ms.length).map fun i => NitroRpcBackend.resultOrZero db (first + i)) n.db
    rw [bind_lift_ok, left, ended]
    refine ⟨⟨changed.1, (frame.count .delayedMessageCount rfl).trans stores.delayed⟩, ?_⟩
    rw [changed.2]
    dsimp only
    cases accepted : (l.reorg first ms none).1 with
    | error e => rfl
    | ok done =>
      have fresh : ((List.range ms.length).map fun i => NitroRpcBackend.resultOrZero
          (final (addMessagesAndReorg first ms none n.db)) (first + i)) = List.replicate ms.length ⟨.zero, .zero⟩ := by
        rw [List.eq_replicate_iff, List.length_map, List.length_range]
        refine ⟨rfl, List.forall_mem_map.mpr fun i _ => ?_⟩
        exact resultOrZero changed.1 ((l.reorg_ok accepted).trans (Nat.le_add_right first i))
      exact congrArg (RpcAnswer.results ∘ Except.ok) fresh

/-- Every call answers like the log, and leaves it stored. -/
theorem call (stores : StoresRpc delayed n l) {c : RpcCall} (allowed : n.RpcAllowed c) :
    StoresRpc delayed (n.rpc c).2 (l.rpc delayed c).2 ∧ (n.rpc c).1 = (l.rpc delayed c).1 := by
  have inside := allowed.2
  rw [stores.log.messageCount] at inside
  cases c with
  | newMessage msgIdx msg => exact stores.newMessage msgIdx msg
  | reorg first messages => exact stores.reorg (inside first rfl) messages
  | headMessageIndex =>
    refine ⟨stores, ?_⟩
    rw [ExecNode.rpc, stores.log.getHeadMessageIndex]
    rfl
  | resultAtMessageIndex msgIdx =>
    refine ⟨stores, ?_⟩
    rw [ExecNode.rpc, NitroRpcBackend.resultAtMessageIndex, stores.log.result]
    rfl
  | nextDelayedMessageNumber =>
    refine ⟨stores, ?_⟩
    rw [ExecNode.rpc, NitroRpcBackend.nextDelayedMessageNumber, Db.readCount, stores.delayed]
    rfl
  | node c =>
    obtain ⟨log, same⟩ := stores.log.call allowed
    exact ⟨⟨log, ((n.call_frame c).count .delayedMessageCount rfl).trans stores.delayed⟩, congrArg RpcAnswer.node same⟩

end StoresRpc

/-- Over every run the backend answers from the log: a message is taken at the end of the log or not at
all, and the answer to one that is taken is made of zeros, as are those to the messages of a reorg. -/
theorem rpc_refines_log {start : ExecNode} (empty : EmptyStore start.db)
    (zero : start.db.count .messageCount = some 0) {delayed : Nat}
    (counted : start.db.count .delayedMessageCount = some delayed) (calls : List RpcCall)
    (allowed : AllAllowed ExecNode.RpcAllowed ExecNode.rpc calls start) :
    StoresLog (runs ExecNode.rpc calls start).2 (runs (LogNode.rpc delayed) calls (.new start.exec)).2 ∧
      (runs ExecNode.rpc calls start).1 = (runs (LogNode.rpc delayed) calls (.new start.exec)).1 := by
  have related : StoresRpc delayed start (.new start.exec) := ⟨stores_new empty zero, counted⟩
  have each (c : RpcCall) (n : ExecNode) (l : LogNode) (may : n.RpcAllowed c) (stores : StoresRpc delayed n l) :
      StoresRpc delayed (n.rpc c).2 (l.rpc delayed c).2 ∧ (n.rpc c).1 = (l.rpc delayed c).1 := stores.call may
  obtain ⟨stores, same⟩ := runs_refine each calls allowed related
  exact ⟨stores.log, same⟩

end

def hexJson (bytes : Bytes) : Json := .string (display bytes)

/-- A message as a JSON value: numbers as numbers, bytes as hexadecimal texts, null for what is absent. -/
def messageJson (m : MessageWithMetadataAndBlockInfo) : Json :=
  let message := m.messageWithMeta.message
  let header := message.header
  .object [("delayedMessagesRead", .number (.ofNat m.messageWithMeta.delayedMessagesRead)),
    ("message", .object [
      ("header", .object [("kind", .number header.kind.toUInt64), ("poster", hexJson header.poster.val),
        ("blockNumber", .number header.blockNumber), ("timestamp", .number header.timestamp),
        ("requestId", header.requestId.elim .null fun id => hexJson id.val),
        ("l1BaseFee", hexJson (U256.toBeBytes header.l1BaseFee))]),
      ("l2msg", hexJson message.l2msg), ("batchGasCost", message.batchGasCost.elim .null .number)]),
    ("blockHash", m.blockHash.elim .null fun hash => hexJson hash.val),
    ("blockMetadata", m.blockMetadata.elim .null hexJson)]

section Samples

/-- A reader of hexadecimal texts. -/
@[reducible] def sampleU256Parser : U256Parser where
  u256FromStr text := (decode (trimPrefix text)).map fun bytes => .ofNat 256 (BigEndian.value bytes)

attribute [local instance] sampleBuilder sampleU256Parser

/-- A message by RPC, its execution, a reorg by RPC and a request that does not parse. -/
def sampleRpcCalls : List RpcCall :=
  [.newMessage 0 (messageJson (sampleMessage 3)), .node (.executeNextMsg .allValid), .resultAtMessageIndex 0,
    .newMessage 1 (messageJson (sampleMessage 4)), .reorg 1 [messageJson (sampleMessage 5)], .newMessage 2 .null,
    .headMessageIndex]

def sampleRpcNode : ExecNode :=
  ⟨Store.write .empty [.setCount .messageCount 0, .setCount .delayedMessageCount 0], .newWithHandles .zero 0⟩

theorem sampleRpcNode_empty : EmptyStore sampleRpcNode.db := ⟨rfl, fun t _ i => by simp [sampleRpcNode]⟩

theorem sample_rpc_refines_log :
    StoresLog (runs ExecNode.rpc sampleRpcCalls sampleRpcNode).2
      (runs (LogNode.rpc 0) sampleRpcCalls (.new sampleRpcNode.exec)).2 ∧
    (runs ExecNode.rpc sampleRpcCalls sampleRpcNode).1 =
      (runs (LogNode.rpc 0) sampleRpcCalls (.new sampleRpcNode.exec)).1 :=
  rpc_refines_log sampleRpcNode_empty rfl rfl sampleRpcCalls ⟨by decide +kernel, by decide +kernel, by decide +kernel,
    by decide +kernel, by decide +kernel, by decide +kernel, by decide +kernel, trivial⟩

end Samples
end NitroRs
