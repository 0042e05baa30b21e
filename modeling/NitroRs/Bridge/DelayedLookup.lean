import NitroRs.Bridge.EthDelayed
import NitroRs.Codecs

/-! A lookup of delayed messages that succeeds returns one message for each log that the guard
lets through, with contents that have the logged hash. -/
namespace NitroRs
open Checked Hex
namespace EthDelayedBridge

/-- The guard of the loop: two topics and five words. -/
def wellFormed (lg : RpcLog) : Bool :=
  match decodeHex lg.data with
  | .ok data => decide (2 ≤ lg.topics.length) && decide (160 ≤ data.length)
  | .error _ => false

def topicAt (lg : RpcLog) (i : Nat) : Option B256 := lg.topics[i]?.map b256OrDefault

def word (data : Bytes) (start : Nat) : Nat := BigEndian.value ((data.drop start).take 32)

/-- What a message has of its log, all but the contents. -/
structure Envelope (rpc : RpcClient) (lg : RpcLog) (data : Bytes) (m : BridgeMessage) : Prop where
  seqNum : (topicAt lg 1).map (fun id => BigEndian.value id.val) = some m.seqNum
  requestId : topicAt lg 1 = m.message.header.requestId
  beforeInboxAcc : topicAt lg 2 = some m.beforeInboxAcc
  kind : m.message.header.kind = if word data 32 < 256 then .ofNat (word data 32) else 0
  poster : m.message.header.poster.val = (data.drop 76).take 20
  l1BaseFee : m.message.header.l1BaseFee = .ofNat 256 (word data 128)
  timestamp : m.message.header.timestamp = .ofNat (word data 160)
  blockNumber : ∃ number, l1BlockNumber rpc lg = .ok number ∧ m.message.header.blockNumber = .ofNat number
  blockHash : m.blockHash = hashOrDefault lg.blockHash
  parentChainBlockNumber : m.parentChainBlockNumber = numberOrDefault lg.blockNumber

section
variable {rpc : RpcClient} {lg : RpcLog}

theorem decodeDelivered_isSome {found : Option Delivered} (ran : decodeDelivered rpc lg = .ok found) :
    found.isSome = wellFormed lg := by
  unfold decodeDelivered at ran
  obtain ⟨data, decoded, ran⟩ := ofError_bind_eq_ok.mp ran
  unfold wellFormed
  rw [decoded]
  split at ran
  · rename_i short
    cases ran
    symm
    simp only [Option.isSome_none, Bool.and_eq_false_iff, decide_eq_false_iff_not]
    omega
  · rename_i long
    simp only [ofPanic_bind_eq_ok, ofError_bind_eq_ok, pure, Except.pure, Except.ok.injEq] at ran
    obtain ⟨_, _, _, _, _, _, _, _, _, _, _, _, _, _, _, _, _, _, _, _, rfl⟩ := ran
    symm
    simp only [Option.isSome_some, Bool.and_eq_true, decide_eq_true_eq]
    omega

/-- The fields of a log that is let through, each at its place. -/
theorem decodeDelivered_some {d : Delivered} (ran : decodeDelivered rpc lg = .ok (some d)) :
    ∃ data, decodeHex lg.data = .ok data ∧ Envelope rpc lg data d.message ∧
      topicAt lg 1 = some d.id ∧ d.messageDataHash.val = (data.drop 96).take 32 := by
  unfold decodeDelivered at ran
  obtain ⟨data, decoded, ran⟩ := ofError_bind_eq_ok.mp ran
  refine ⟨data, decoded, ?_⟩
  split at ran
  · cases ran
  · simp only [ofPanic_bind_eq_ok, ofError_bind_eq_ok, pure, Except.pure, Except.ok.injEq, Option.some.injEq,
      index_eq_ok, narrow64_eq_ok, fixedSlice_eq_ok, u64At_eq_ok, wordAt_eq_ok] at ran
    obtain ⟨topic1, id, _, ⟨_, rfl⟩, topic2, before, _, _, _, ⟨_, _, rfl⟩, _, ⟨_, poster⟩, _, ⟨_, hash⟩, _, ⟨_, rfl⟩,
      _, ⟨_, _, rfl⟩, number, block, rfl⟩ := ran
    have first : topicAt lg 1 = some (b256OrDefault topic1) := by rw [topicAt, id, Option.map_some]
    have second : topicAt lg 2 = some (b256OrDefault topic2) := by rw [topicAt, before, Option.map_some]
    refine ⟨?_, first, hash⟩
    exact {
      seqNum := by rw [first, Option.map_some]
      requestId := first
      beforeInboxAcc := second
      kind := rfl
      poster
      l1BaseFee := rfl
      timestamp := rfl
      blockNumber := ⟨number, block, rfl⟩
      blockHash := rfl
      parentChainBlockNumber := rfl }

end

section
variable [Externals]

/-- The message of a log: its fields, and contents with the hash that it logs. -/
def Delivers (rpc : RpcClient) (lg : RpcLog) (m : BridgeMessage) : Prop :=
  ∃ data, decodeHex lg.data = .ok data ∧ Envelope rpc lg data m ∧
    (keccak256 m.message.l2msg).val = (data.drop 96).take 32

/-- A message is filled in with contents that were logged for its id and have its hash. -/
def Fills (logged : List (B256 × Bytes)) (d : Delivered) (m : BridgeMessage) : Prop :=
  ∃ data, dataById logged d.id = some data ∧ keccak256 data = d.messageDataHash ∧
    m = { d.message with message := { d.message.message with l2msg := data } }

theorem join_forall₂ {logged : List (B256 × Bytes)} {parsed : List Delivered} {out : List BridgeMessage}
    (joined : join logged parsed = .ok out) : List.Forall₂ (Fills logged) parsed out := by
  induction parsed generalizing out with
  | nil =>
    cases joined
    exact .nil
  | cons d later ih =>
    rw [join] at joined
    split at joined
    · contradiction
    · rename_i data known
      split at joined
      · contradiction
      · rename_i same
        cases rest : join logged later with
        | error err =>
          rw [rest] at joined
          contradiction
        | ok messages =>
          rw [rest] at joined
          cases joined
          exact .cons ⟨data, known, not_not.mp same, rfl⟩ (ih rest)

theorem delivers_of_fills {rpc : RpcClient} {logged : List (B256 × Bytes)} {lg : RpcLog} {d : Delivered}
    {m : BridgeMessage} (ran : decodeDelivered rpc lg = .ok (some d)) (fills : Fills logged d m) :
    Delivers rpc lg m := by
  obtain ⟨data, decoded, envelope, _, hash⟩ := decodeDelivered_some ran
  obtain ⟨contents, _, same, rfl⟩ := fills
  exact ⟨data, decoded, { envelope with }, same ▸ hash⟩

/-- Two relations that hold element by element, one after the other. -/
theorem delivers_of_join {rpc : RpcClient} {logged : List (B256 × Bytes)} {logs : List RpcLog}
    {parsed : List Delivered} {out : List BridgeMessage}
    (decoded : List.Forall₂ (fun lg d => decodeDelivered rpc lg = .ok (some d)) logs parsed)
    (filled : List.Forall₂ (Fills logged) parsed out) : List.Forall₂ (Delivers rpc) logs out := by
  induction decoded generalizing out with
  | nil =>
    cases filled
    exact .nil
  | cons ran _ ih =>
    cases filled with
    | cons fills later => exact .cons (delivers_of_fills ran fills) (ih later)

/-- Whatever is logged by the inboxes, a lookup that succeeds has one message for each log that
is let through, sorted, and each with contents of the logged hash. -/
theorem lookup_complete_and_authentic (bridge : EthDelayedBridge) (fromBlock toBlock : Nat) {logs : List RpcLog}
    {out : List BridgeMessage}
    (answered : bridge.rpc.getLogs (bridge.deliveredFilter fromBlock toBlock) = .ok logs)
    (ran : bridge.lookupMessagesInRange fromBlock toBlock = .ok out) :
    (∃ messages, List.Forall₂ (Delivers bridge.rpc) (logs.filter wellFormed) messages ∧ out.Perm messages) ∧
      out.Pairwise (fun a b => a.seqNum ≤ b.seqNum) := by
  unfold lookupMessagesInRange at ran
  obtain ⟨_, read, ran⟩ := ofError_bind_eq_ok.mp ran
  cases answered.symm.trans read
  obtain ⟨parsed, parses, ran⟩ := bind_eq_ok.mp ran
  have decoded := collect_forall₂ (fun _ _ => decodeDelivered_isSome) parses
  split at ran
  · rename_i empty
    cases ran
    rw [List.isEmpty_iff.mp empty] at decoded
    exact ⟨⟨[], List.forall₂_nil_right_iff.mpr (List.forall₂_nil_right_iff.mp decoded), .nil⟩, .nil⟩
  · obtain ⟨_, _, ran⟩ := ofError_bind_eq_ok.mp ran
    obtain ⟨logged, _, ran⟩ := bind_eq_ok.mp ran
    obtain ⟨messages, joined, ran⟩ := ofError_bind_eq_ok.mp ran
    cases ran
    exact ⟨⟨messages, delivers_of_join decoded (join_forall₂ joined), List.perm_insertionSort _ _⟩,
      List.pairwise_insertionSort _ _⟩

end

section Samples
open Codecs

def deliveredLog (id : Nat) (contents : Bytes) : RpcLog where
  address := []
  data := display (BigEndian.digits 96 0 ++ (keccak256 contents).val ++ BigEndian.digits 64 0)
  topics := [[], display (BigEndian.digits 32 id), []]
  blockNumber := none
  blockHash := none
  transactionHash := none

def inboxLog (id : Nat) (contents : Bytes) : RpcLog where
  address := []
  data := display (BigEndian.digits 32 32 ++ BigEndian.digits 32 contents.length ++ contents)
  topics := [display (eventTopic evtInboxMessageDelivered).val, display (BigEndian.digits 32 id)]
  blockNumber := none
  blockHash := none
  transactionHash := none

/-- Two messages out of order and a log without topics between them; the contents of message 4
are logged twice, the first time wrong. -/
def twoMessagesRpc : RpcClient where
  getLogs filter :=
    if filter.topics.length = 1 then .ok [deliveredLog 4 [7], { deliveredLog 5 [8] with topics := [] }, deliveredLog 3 []]
    else .ok [inboxLog 4 [6], inboxLog 3 [], inboxLog 4 [7]]
  getBlockByHash _ := .error .rpc
  getTransactionByHash _ := .error .rpc
  getTransactionReceipt _ := .error .rpc

theorem two_messages_found : ∃ out,
    lookupMessagesInRange ⟨twoMessagesRpc, .zero⟩ 0 9 = .ok out ∧ out.map (·.seqNum) = [3, 4] ∧
    ∃ messages, List.Forall₂ (Delivers twoMessagesRpc) ([deliveredLog 4 [7],
      { deliveredLog 5 [8] with topics := [] }, deliveredLog 3 []].filter wellFormed) messages ∧ out.Perm messages := by
  have found : (lookupMessagesInRange ⟨twoMessagesRpc, .zero⟩ 0 9).toOption.map (·.map (·.seqNum)) =
      some [3, 4] := by decide +kernel
  cases ran : lookupMessagesInRange ⟨twoMessagesRpc, .zero⟩ 0 9 with
  | error stop =>
    rw [ran] at found
    contradiction
  | ok out =>
    rw [ran] at found
    exact ⟨out, rfl, Option.some.inj found,
      (lookup_complete_and_authentic ⟨twoMessagesRpc, .zero⟩ 0 9 rfl ran).1⟩

end Samples

end EthDelayedBridge
end NitroRs
