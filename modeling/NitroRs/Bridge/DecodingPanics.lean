import NitroRs.Bridge.EthDelayed
import NitroRs.Bridge.EthSequencer
import NitroRs.Codecs

/-! The panics of the log decoders. Their guards are shorter than what is read behind them, and
a word that does not fit its type panics as well. -/
namespace NitroRs
open Checked Hex

/-- A topic that is a number of 64 bits. -/
def TopicFits (lg : RpcLog) (i : Nat) : Prop :=
  ∀ topic, lg.topics[i]? = some topic → BigEndian.value (b256OrDefault topic).val < 2 ^ 64

/-- What the decoder of a `MessageDelivered` log reads. -/
structure DeliveredReads (lg : RpcLog) (data : Bytes) : Prop where
  topics : 3 ≤ lg.topics.length
  length : 192 ≤ data.length
  id : TopicFits lg 1
  kind : FitsU64 data 32
  timestamp : FitsU64 data 160

/-- The log is turned down by the guard, or has all that is read behind it. -/
def DeliveredFits (lg : RpcLog) : Prop := ∀ data, decodeHex lg.data = .ok data →
  2 ≤ lg.topics.length → 160 ≤ data.length → DeliveredReads lg data

/-- The words of a batch, from an offset on. -/
structure WordsFit (data : Bytes) (base : Nat) : Prop where
  length : base + 224 ≤ data.length
  afterDelayedCount : FitsU64 data (base + 32)
  minTimestamp : FitsU64 data (base + 64)
  maxTimestamp : FitsU64 data (base + 96)
  minBlockNumber : FitsU64 data (base + 128)
  maxBlockNumber : FitsU64 data (base + 160)

/-- With three topics the data is one word longer than the guard asks for. -/
def BatchFits (lg : RpcLog) : Prop := ∀ data, decodeHex lg.data = .ok data →
  3 ≤ lg.topics.length → 224 ≤ data.length →
  TopicFits lg 1 ∧ WordsFit data (if 4 ≤ lg.topics.length then 0 else 32)

/-- A length in a log of an inbox, or in the transaction that it points at. -/
def ContentsFit [Externals] (rpc : RpcClient) (lg : RpcLog) : Prop :=
  ∀ topic0 topic1 rest data, lg.topics = topic0 :: topic1 :: rest → decodeHex lg.data = .ok data →
    if b256OrDefault topic0 = eventTopic evtInboxMessageDelivered then
      64 ≤ data.length → LengthFits data 32
    else b256OrDefault topic0 = eventTopic evtInboxMessageFromOrigin →
      ∀ txHash text input, lg.transactionHash = some txHash → rpc.getTransactionByHash txHash = .ok text →
        decodeHex text = .ok input → input.take 4 = encodeSelector sigSendL2FromOrigin → 68 ≤ input.length →
        LengthFits input 36

def BatchDataFits (lg : RpcLog) : Prop :=
  ∀ data, decodeHex lg.data = .ok data → 64 ≤ data.length → LengthFits data 32

theorem topicFits_iff {lg : RpcLog} {i : Nat} {P : Prop} :
    (∃ topic, index lg.topics i = .ok topic ∧ BigEndian.value (b256OrDefault topic).val < 2 ^ 64 ∧ P) ↔
      i < lg.topics.length ∧ TopicFits lg i ∧ P := by
  unfold TopicFits
  simp only [index_eq_ok]
  constructor
  · rintro ⟨topic, here, fits, rest⟩
    refine ⟨(List.getElem?_eq_some_iff.mp here).1, fun topic' here' => ?_, rest⟩
    cases here.symm.trans here'
    exact fits
  · rintro ⟨inside, fits, rest⟩
    exact ⟨_, List.getElem?_eq_getElem inside, fits _ (List.getElem?_eq_getElem inside), rest⟩

section
variable [Externals]

/-- Every log that a lookup of messages comes to, first of the bridge and then of the inboxes. -/
@[mk_iff]
structure EthDelayedBridge.LogsFit (bridge : EthDelayedBridge) (fromBlock toBlock : Nat) (logs : List RpcLog) :
    Prop where
  delivered : ∀ lg ∈ reached (decodeDelivered bridge.rpc) logs, DeliveredFits lg
  contents : ∀ parsed, collect (decodeDelivered bridge.rpc) logs = .ok parsed → parsed ≠ [] →
    ∀ inboxLogs, bridge.rpc.getLogs (inboxFilter fromBlock toBlock parsed) = .ok inboxLogs →
      ∀ lg ∈ reached (decodeInboxLog bridge.rpc) inboxLogs, ContentsFit bridge.rpc lg

end

namespace EthDelayedBridge
variable {rpc : RpcClient} {lg : RpcLog}

theorem decodeDelivered_safe_iff : Safe (decodeDelivered rpc lg) ↔ DeliveredFits lg := by
  unfold decodeDelivered DeliveredFits
  rw [safe_ofError_bind]
  refine forall_congr' fun data => imp_congr_right fun _ => ?_
  split
  · rename_i short
    exact iff_of_true safe_ok fun _ _ => by omega
  · rename_i long
    simp only [safe_ofPanic_bind, safe_ofError_bind, pure, Except.pure, safe_ok, implies_true, and_true,
      exists_and_right, index_ok_iff, narrow64_ok_iff, fixedSlice_ok_iff, u64At_ok_iff, wordAt_ok_iff, topicFits_iff]
    constructor
    · rintro ⟨_, id, more, _, ⟨_, kind⟩, _, _, _, length, timestamp⟩ _ _
      exact ⟨more, length, id, kind, timestamp⟩
    · intro reads
      obtain ⟨topics, length, id, kind, timestamp⟩ := reads (by omega) (by omega)
      exact ⟨by omega, id, topics, by omega, ⟨by omega, kind⟩, by omega, by omega, by omega, length, timestamp⟩

section
variable [Externals]

theorem originContents_ok_iff {input : Bytes} : (∃ bytes, originContents input = .ok bytes) ↔
    (input.take 4 = encodeSelector sigSendL2FromOrigin → 68 ≤ input.length → LengthFits input 36) := by
  unfold originContents
  split
  · rename_i asked
    rw [bytesBehind_ok_iff (by omega)]
    exact ⟨fun fits _ _ => fits, fun fits => fits asked.2.1 asked.2.2⟩
  · rename_i other
    refine iff_of_true ⟨_, rfl⟩ fun selector long => absurd ⟨by omega, selector, long⟩ other

theorem decodeInboxLog_safe_iff : Safe (decodeInboxLog rpc lg) ↔ ContentsFit rpc lg := by
  unfold decodeInboxLog ContentsFit
  split
  · rename_i topic0 topic1 rest topics
    rw [safe_ofError_bind, topics]
    trans ∀ data, decodeHex lg.data = .ok data →
      if b256OrDefault topic0 = eventTopic evtInboxMessageDelivered then 64 ≤ data.length → LengthFits data 32
      else b256OrDefault topic0 = eventTopic evtInboxMessageFromOrigin →
        ∀ txHash text input, lg.transactionHash = some txHash → rpc.getTransactionByHash txHash = .ok text →
          decodeHex text = .ok input → input.take 4 = encodeSelector sigSendL2FromOrigin → 68 ≤ input.length →
          LengthFits input 36
    · refine forall_congr' fun data => imp_congr_right fun _ => ?_
      split
      · split
        · rename_i long
          simp only [safe_ofPanic_bind, pure, Except.pure, safe_ok, and_true]
          rw [bytesBehind_ok_iff (by omega)]
          exact ⟨fun fits _ => fits, fun fits => fits long⟩
        · rename_i short
          exact iff_of_true safe_ok fun long => absurd long short
      · split
        · rename_i origin
          cases lg.transactionHash with
          | none =>
            refine iff_of_true safe_ok ?_
            intro _ _ _ _ same
            cases same
          | some txHash =>
            simp only [safe_ofError_bind, safe_ofPanic_bind, pure, Except.pure, safe_ok, and_true,
              originContents_ok_iff]
            constructor
            · rintro fits _ txHash' text input ⟨⟩ answered decoded
              exact fits text answered input decoded
            · intro fits text answered input decoded
              exact fits origin txHash text input rfl answered decoded
        · rename_i other
          exact iff_of_true safe_ok fun origin => absurd origin other
    · constructor
      · rintro fits topic0' topic1' rest' data ⟨⟩ decoded
        exact fits data decoded
      · exact fun fits data decoded => fits topic0 topic1 rest data rfl decoded
  · rename_i short
    exact iff_of_true safe_ok fun topic0 topic1 rest data topics _ => absurd topics (short topic0 topic1 rest)

end
end EthDelayedBridge

namespace EthSequencerInbox
variable {lg : RpcLog} {data : Bytes} {base : Nat}

theorem batchWords_ok_iff : (∃ words, batchWords data base = .ok words) ↔ WordsFit data base := by
  unfold batchWords
  simp only [bind_ok_iff, exists_and_right, fixedSlice_ok_iff, u64At_ok_iff, wordAt_ok_iff, pure, Except.pure,
    Except.ok.injEq, exists_eq', and_true]
  constructor
  · rintro ⟨_, ⟨_, count⟩, ⟨_, minTimestamp⟩, ⟨_, maxTimestamp⟩, ⟨_, minBlock⟩, ⟨_, maxBlock⟩, length⟩
    exact ⟨length, count, minTimestamp, maxTimestamp, minBlock, maxBlock⟩
  · rintro ⟨length, count, minTimestamp, maxTimestamp, minBlock, maxBlock⟩
    exact ⟨by omega, ⟨by omega, count⟩, ⟨by omega, minTimestamp⟩, ⟨by omega, maxTimestamp⟩, ⟨by omega, minBlock⟩,
      ⟨by omega, maxBlock⟩, length⟩

theorem batchLayout_ok_iff : (∃ layout, batchLayout lg data = .ok layout) ↔
    WordsFit data (if 4 ≤ lg.topics.length then 0 else 32) := by
  unfold batchLayout
  split
  · simp only [bind_ok_iff, exists_and_right, index_ok_iff, batchWords_ok_iff, pure, Except.pure, Except.ok.injEq,
      exists_eq', and_true]
    exact and_iff_right (by omega)
  · simp only [bind_ok_iff, exists_and_right, fixedSlice_ok_iff, batchWords_ok_iff, pure, Except.pure,
      Except.ok.injEq, exists_eq', and_true]
    refine and_iff_right_of_imp fun fit => ?_
    have := fit.length
    omega

theorem decodeBatch_safe_iff : Safe (decodeBatch lg) ↔ BatchFits lg := by
  unfold decodeBatch BatchFits
  rw [safe_ofError_bind]
  refine forall_congr' fun data => imp_congr_right fun _ => ?_
  split
  · rename_i short
    exact iff_of_true safe_ok fun _ _ => by omega
  · rename_i long
    simp only [safe_ofPanic_bind, pure, Except.pure, safe_ok, and_true, exists_and_right, index_ok_iff,
      narrow64_ok_iff, batchLayout_ok_iff, topicFits_iff]
    constructor
    · rintro ⟨_, id, _, words⟩ _ _
      exact ⟨id, words⟩
    · intro fits
      obtain ⟨id, words⟩ := fits (by omega) (by omega)
      exact ⟨by omega, id, by omega, words⟩

section
variable [Externals]

theorem getSequencerMessageBytesInBlock_safe_iff (inbox : EthSequencerInbox) (blockNumber seqNum : Nat)
    (txHash blockHash : B256) : Safe (inbox.getSequencerMessageBytesInBlock blockNumber seqNum txHash blockHash) ↔
      ∀ lg, inbox.batchDataLog blockNumber seqNum txHash blockHash = .ok lg → BatchDataFits lg := by
  unfold getSequencerMessageBytesInBlock BatchDataFits
  simp only [safe_ofError_bind]
  refine forall_congr' fun lg => imp_congr_right fun _ => forall_congr' fun data => imp_congr_right fun _ => ?_
  split
  · rename_i short
    exact iff_of_true safe_error fun _ => by omega
  · rename_i long
    rw [safe_ofPanic_bind, ← bytesBehind_ok_iff (by omega)]
    constructor
    · rintro ⟨bytes, read, _⟩ _
      exact ⟨bytes, read⟩
    · intro fits
      obtain ⟨bytes, read⟩ := fits (by omega)
      refine ⟨bytes, read, ?_⟩
      cases bytes with
      | none => exact safe_error
      | some bytes => exact safe_ok

end
end EthSequencerInbox

section
variable [Externals]

theorem lookupMessagesInRange_safe_iff (bridge : EthDelayedBridge) (fromBlock toBlock : Nat) :
    Safe (bridge.lookupMessagesInRange fromBlock toBlock) ↔
      ∀ logs, bridge.rpc.getLogs (bridge.deliveredFilter fromBlock toBlock) = .ok logs →
        bridge.LogsFit fromBlock toBlock logs := by
  unfold EthDelayedBridge.lookupMessagesInRange
  simp only [safe_ofError_bind]
  refine forall_congr' fun logs => imp_congr_right fun _ => ?_
  rw [safe_bind, safe_collect, EthDelayedBridge.logsFit_iff]
  simp only [EthDelayedBridge.decodeDelivered_safe_iff]
  refine and_congr_right fun _ => forall_congr' fun parsed => imp_congr_right fun _ => ?_
  cases parsed with
  | nil => exact iff_of_true safe_ok fun some => absurd rfl some
  | cons d later =>
    rw [if_neg (by exact Bool.false_ne_true), safe_ofError_bind, imp_iff_right (List.cons_ne_nil d later)]
    refine forall_congr' fun inboxLogs => imp_congr_right fun _ => ?_
    rw [safe_bind, safe_collect, and_iff_left]
    · simp only [EthDelayedBridge.decodeInboxLog_safe_iff]
    · intro logged _
      rw [safe_ofError_bind]
      exact fun _ _ => safe_ok

theorem lookupBatchesInRange_safe_iff (inbox : EthSequencerInbox) (fromBlock toBlock : Nat) :
    Safe (inbox.lookupBatchesInRange fromBlock toBlock) ↔
      ∀ logs, inbox.rpc.getLogs (inbox.deliveredFilter fromBlock toBlock) = .ok logs →
        ∀ lg ∈ reached EthSequencerInbox.decodeBatch logs, BatchFits lg := by
  unfold EthSequencerInbox.lookupBatchesInRange
  rw [safe_ofError_bind]
  refine forall_congr' fun logs => imp_congr_right fun _ => ?_
  rw [safe_collect]
  simp only [EthSequencerInbox.decodeBatch_safe_iff]

/-- The three decoders panic at no log exactly when those that they come to hold all that is
read of them. -/
theorem log_decoding_safe_iff (bridge : EthDelayedBridge) (inbox : EthSequencerInbox)
    (fromBlock toBlock blockNumber seqNum : Nat) (txHash blockHash : B256) :
    (Safe (bridge.lookupMessagesInRange fromBlock toBlock) ↔
      ∀ logs, bridge.rpc.getLogs (bridge.deliveredFilter fromBlock toBlock) = .ok logs →
        bridge.LogsFit fromBlock toBlock logs) ∧
    (Safe (inbox.lookupBatchesInRange fromBlock toBlock) ↔
      ∀ logs, inbox.rpc.getLogs (inbox.deliveredFilter fromBlock toBlock) = .ok logs →
        ∀ lg ∈ reached EthSequencerInbox.decodeBatch logs, BatchFits lg) ∧
    (Safe (inbox.getSequencerMessageBytesInBlock blockNumber seqNum txHash blockHash) ↔
      ∀ lg, inbox.batchDataLog blockNumber seqNum txHash blockHash = .ok lg → BatchDataFits lg) :=
  ⟨lookupMessagesInRange_safe_iff bridge fromBlock toBlock, lookupBatchesInRange_safe_iff inbox fromBlock toBlock,
    inbox.getSequencerMessageBytesInBlock_safe_iff blockNumber seqNum txHash blockHash⟩

end

section Samples
open Codecs

/-- A `MessageDelivered` log with two topics and the data of a message, all zeros. -/
def twoTopics : RpcLog where
  address := []
  data := List.replicate 384 '0'
  topics := [[], []]
  blockNumber := none
  blockHash := none
  transactionHash := none

def twoTopicsRpc : RpcClient where
  getLogs _ := .ok [twoTopics]
  getBlockByHash _ := .error .rpc
  getTransactionByHash _ := .error .rpc
  getTransactionReceipt _ := .error .rpc

/-- The guard lets it through, and the third topic is read. -/
theorem two_topics_panic : ¬ ∀ (bridge : EthDelayedBridge) (inbox : EthSequencerInbox)
    (fromBlock toBlock blockNumber seqNum : Nat) (txHash blockHash : B256),
    Safe (bridge.lookupMessagesInRange fromBlock toBlock) ∧ Safe (inbox.lookupBatchesInRange fromBlock toBlock) ∧
      Safe (inbox.getSequencerMessageBytesInBlock blockNumber seqNum txHash blockHash) := by
  intro always
  have safe := (always ⟨twoTopicsRpc, .zero⟩ ⟨twoTopicsRpc, .zero⟩ 0 0 0 0 .zero .zero).1
  have fits := (lookupMessagesInRange_safe_iff _ 0 0).mp safe [twoTopics] rfl
  have decoded : decodeHex twoTopics.data = .ok (List.replicate 192 0) := by decide +kernel
  have long : 160 ≤ (List.replicate 192 (0 : UInt8)).length := by
    rw [List.length_replicate]
    decide
  exact absurd (fits.delivered twoTopics List.mem_cons_self _ decoded le_rfl long).topics (by decide)

end Samples
end NitroRs
