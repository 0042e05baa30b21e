import NitroRs.Lib.Abi
import NitroRs.Poster.BatchPoster
import NitroRs.Reader.InboxReader

/-! From the poster to the reader: the call that carries a built batch, and what the
reader takes out of it. The reader looks for the first word of the call that points at
bytes inside it. The first word is the sequence number, which the poster leaves at
zero: it points at itself, and the reader finds no bytes there. -/
namespace NitroRs
open Outcome

structure AddSequencerL2BatchFromOriginCall where
  sequenceNumber : U256
  data : Bytes
  afterDelayedMessagesRead : U256
  gasRefunder : Address
  prevMessageCount : U256
  newMessageCount : U256

def AddSequencerL2BatchFromOriginCall.args (call : AddSequencerL2BatchFromOriginCall) : List Abi.Arg :=
  [.word call.sequenceNumber.toNat, .bytes call.data, .word call.afterDelayedMessagesRead.toNat,
    .word (BigEndian.value call.gasRefunder.val), .word call.prevMessageCount.toNat,
    .word call.newMessageCount.toNat]

/-- A selector and the arguments, as `abi_encode` of the generated call writes them. -/
def StandardAbi (abiEncode : AddSequencerL2BatchFromOriginCall → Bytes) : Prop :=
  ∃ selector : FixedBytes 4, ∀ call, abiEncode call = selector.val ++ Abi.encode call.args

structure TransactionRequest where
  toAddress : Address
  input : Bytes
  value : U256

/-- Where the poster sends its batches. A key and an address that parse connect a
wallet, which sends a transaction and answers with its hash. -/
structure PostTarget where
  posterPrivateKeyHex : Option String
  sequencerInbox : Address
  connect : String → Except Error (TransactionRequest → Except Error B256)

namespace InboxReader

/-- A zero in the first place points at itself, and stands there for a length of 0. -/
theorem extractBatchData_zero_word {selector params : Bytes} (four : selector.length = 4)
    (enough : 32 ≤ params.length) (zero : u256At params 0 = 0) :
    extractBatchData (selector ++ params) = .ok [] := by
  have long : ¬ (selector ++ params).length < 4 + 32 := by
    rw [List.length_append, four]
    omega
  have empty : bytesAt params 0 = .ok (some []) := by
    have fits : ¬ params.length < 0 + 32 := by omega
    simp only [bytesAt, zero, fits, List.take_zero, if_false]
    rfl
  obtain ⟨later, range⟩ : ∃ later, List.range (params.length / 32) = 0 :: later := by
    obtain ⟨n, count⟩ : ∃ n, params.length / 32 = n + 1 := ⟨params.length / 32 - 1, by omega⟩
    exact ⟨_, count ▸ List.range_succ_eq_map⟩
  rw [extractBatchData, if_neg long]
  simp only [List.drop_left' four, range, locateBytes, Nat.zero_mul, zero, empty]

end InboxReader

namespace BatchPoster

def batchCall (poster : BatchPoster) (data : Bytes) : AddSequencerL2BatchFromOriginCall where
  sequenceNumber := 0
  data
  afterDelayedMessagesRead := .ofNat 256 (poster.lastAfterDelayed.getD 0).toNat
  gasRefunder := .zero
  prevMessageCount := 0
  newMessageCount := 0

section
variable (abiEncode : AddSequencerL2BatchFromOriginCall → Bytes)

def batchTransaction (target : PostTarget) (poster : BatchPoster) (data : Bytes) : TransactionRequest where
  toAddress := target.sequencerInbox
  input := abiEncode (poster.batchCall data)
  value := 0

/-- Without a key nothing is sent. -/
def postToL1 (target : PostTarget) (data : Bytes) : EStateM Error BatchPoster B256 :=
  match target.posterPrivateKeyHex with
  | none => return .zero
  | some key => do
    let send ← lift (target.connect key)
    let poster ← read
    lift (send (batchTransaction abiEncode target poster data))

end

section
variable {abiEncode : AddSequencerL2BatchFromOriginCall → Bytes} {inbox : SequencerInbox}
  {b : SequencerInboxBatch} {target : PostTarget} {poster : BatchPoster} {data : Bytes}

/-- The sequence number of every call is 0. -/
theorem extractBatchData_batchTransaction (standard : StandardAbi abiEncode) :
    InboxReader.extractBatchData (batchTransaction abiEncode target poster data).input = .ok [] := by
  obtain ⟨selector, encoded⟩ := standard
  have length := Abi.encode_length_ge (poster.batchCall data).args
  have words : (poster.batchCall data).args.length = 6 := rfl
  have input : (batchTransaction abiEncode target poster data).input =
      selector.val ++ Abi.encode (poster.batchCall data).args := encoded _
  have first : (Abi.encode (poster.batchCall data).args).take 32 = Abi.encodeWord 0 := Abi.take_encode 0 _
  rw [input]
  refine InboxReader.extractBatchData_zero_word selector.property (by omega) ?_
  rw [InboxReader.u256At, List.drop_zero, first]
  exact BigEndian.value_digits (by decide)

/-- The reader hands on the header that it writes itself, and nothing else. -/
theorem fetchData_batchTransaction (standard : StandardAbi abiEncode) (location : b.dataLocation = 0)
    (posted : inbox.getTxInput b.txHash = .ok (batchTransaction abiEncode target poster data).input) :
    ∃ good, InboxReader.fetchData inbox [b] = .ok [good] ∧
      good.serialized = batchHeader b.timeBounds b.afterDelayedCount := by
  have found : InboxReader.batchData inbox b = .ok ([], b.blockHash) := by
    rw [InboxReader.batchData, location]
    simp only [posted, extractBatchData_batchTransaction standard, Except.map]
  refine ⟨{ b with
    serialized := batchHeader b.timeBounds b.afterDelayedCount ++ []
    blockHash := if b.blockHash = .zero then b.blockHash else b.blockHash }, ?_, List.append_nil _⟩
  simp only [InboxReader.fetchData, found, bind, Except.bind, pure, Except.pure]

variable [Externals] {provider : L1Provider}

theorem parse_header_only (bounds : TimeBounds) (count : Nat) :
    ∃ seq, parseSequencerMessage (batchHeader bounds count) = .ok seq ∧ seq.segments = [] := by
  have length : (batchHeader bounds count).length = 40 := by
    simp only [batchHeader, u64Be8, List.length_append, BigEndian.digits_length]
  refine ⟨_, parseSequencerMessage_eq_ok.mpr ⟨length.ge, [], ?_, rfl⟩, rfl⟩
  rw [List.drop_eq_nil_of_le length.le]
  rfl

/-- Whatever the poster builds and posts reaches the inbox as a batch without segments. -/
theorem posted_batch_parses (standard : StandardAbi abiEncode) (location : b.dataLocation = 0)
    (posted : inbox.getTxInput b.txHash = .ok (batchTransaction abiEncode target poster data).input) :
    ∃ good seq, InboxReader.fetchData inbox [b] = .ok [good] ∧
      parseSequencerMessage good.serialized = .ok seq ∧ seq.segments = [] := by
  obtain ⟨good, fetched, header⟩ := fetchData_batchTransaction standard location posted
  obtain ⟨seq, parsed, none⟩ := parse_header_only b.timeBounds b.afterDelayedCount
  exact ⟨good, seq, fetched, header ▸ parsed, none⟩

/-- A batch on L1 that carries what the poster builds next. -/
def Posted (abiEncode : AddSequencerL2BatchFromOriginCall → Bytes) (provider : L1Provider)
    (target : PostTarget) (poster : BatchPoster) (inbox : SequencerInbox) (b : SequencerInboxBatch) : Prop :=
  b.dataLocation = 0 ∧ ∃ out poster', buildBatchBytes provider poster = .ok (some out) poster' ∧
    inbox.getTxInput b.txHash = .ok (batchTransaction abiEncode target poster' out).input

/-- The segments of a posted batch reach the inbox exactly when there are none. -/
theorem segments_arrive_iff (standard : StandardAbi abiEncode)
    (posted : Posted abiEncode provider target poster inbox b) :
    (∃ good seq, InboxReader.fetchData inbox [b] = .ok [good] ∧
      parseSequencerMessage good.serialized = .ok seq ∧ seq.segments = poster.segments) ↔
      poster.segments = [] := by
  obtain ⟨location, _, _, _, input⟩ := posted
  obtain ⟨good, seq, fetched, parsed, none⟩ := posted_batch_parses standard location input
  constructor
  · rintro ⟨good', seq', fetched', parsed', same⟩
    obtain ⟨rfl⟩ : good = good' := by simpa using fetched.symm.trans fetched'
    obtain ⟨rfl⟩ : seq = seq' := by simpa using parsed.symm.trans parsed'
    rw [← same, none]
  · intro empty
    exact ⟨good, seq, fetched, parsed, none.trans empty.symm⟩

end

section Samples
open Codecs

def sampleEncode (call : AddSequencerL2BatchFromOriginCall) : Bytes :=
  [0x8f, 0x11, 0x1f, 0x3c] ++ Abi.encode call.args

theorem sampleEncode_standard : StandardAbi sampleEncode := ⟨⟨[0x8f, 0x11, 0x1f, 0x3c], rfl⟩, fun _ => rfl⟩

def samplePoster (segments : List Bytes) : BatchPoster where
  parentChainBound := "latest"
  delayedCountFn := none
  segmentSource := some ⟨0, fun _ => segments⟩
  lastAfterDelayed := none

def sampleTarget : PostTarget := ⟨none, .zero, fun _ => .error .rpc⟩

/-- L1 with the batch that the poster builds. -/
def sampleInbox (segments : List Bytes) : SequencerInbox where
  getBatchCount _ := .ok 1
  getAccumulator _ _ := .ok .zero
  lookupBatchesInRange _ _ := .ok [batch 0 0 []]
  getSequencerMessageBytesInBlock _ _ _ _ := .error .rpc
  getTxInput _ := .ok (batchTransaction sampleEncode sampleTarget
    { samplePoster segments with lastAfterDelayed := some 0 }
    (assembleBatch openBounds 0 segments)).input

theorem sample_posted (segments : List Bytes) : Posted sampleEncode (.ok fun _ => .ok none) sampleTarget
    (samplePoster segments) (sampleInbox segments) (batch 0 0 []) := by
  have resolved (bound : ParentChainBound) :
      resolveL1Bounds bound (.ok fun _ => .ok none) = .ok openBounds := by
    unfold resolveL1Bounds
    split <;> rfl
  exact ⟨rfl, _, _, buildBatchBytes_open nofun (resolved _), rfl⟩

/-- A poster without segments. -/
theorem no_segments_arrive : ∃ good seq, InboxReader.fetchData (sampleInbox []) [batch 0 0 []] = .ok [good] ∧
    parseSequencerMessage good.serialized = .ok seq ∧ seq.segments = (samplePoster []).segments :=
  (segments_arrive_iff sampleEncode_standard (sample_posted [])).mpr rfl

/-- One segment is posted and does not arrive. -/
theorem segment_is_lost : RlpRoundTrips ∧ BrotliRoundTrips ∧ StandardAbi sampleEncode ∧
    Posted sampleEncode (.ok fun _ => .ok none) sampleTarget (samplePoster [[0, 7]]) (sampleInbox [[0, 7]])
      (batch 0 0 []) ∧
    ∃ good seq, InboxReader.fetchData (sampleInbox [[0, 7]]) [batch 0 0 []] = .ok [good] ∧
      parseSequencerMessage good.serialized = .ok seq ∧ (samplePoster [[0, 7]]).segments = [[0, 7]] ∧
      seq.segments = [] := by
  obtain ⟨location, _, _, _, input⟩ := sample_posted [[0, 7]]
  obtain ⟨good, seq, fetched, parsed, none⟩ :=
    posted_batch_parses sampleEncode_standard location input
  exact ⟨rlp, brotli, sampleEncode_standard, sample_posted _, good, seq, fetched, parsed, rfl, none⟩

end Samples

end BatchPoster
end NitroRs
