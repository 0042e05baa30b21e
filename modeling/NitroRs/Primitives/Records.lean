import NitroRs.Primitives.Message
import NitroRs.Lib.Codec
import NitroRs.Lib.Rlp

/-! The RLP encodings of the stored records. -/
namespace NitroRs

/-- `alloy_rlp::Error`, and the panic of a slice past the end of its buffer. -/
inductive RlpError where
  | overflow
  | leadingZero
  | inputTooShort
  | nonCanonicalSingleByte
  | nonCanonicalSize
  | unexpectedLength
  | unexpectedString
  | unexpectedList
  | listLengthMismatch (expected got : Nat)
  | custom (text : String)
  | slicePanic
  deriving DecidableEq

/-- The `alloy_rlp` codecs that the records are made of. -/
structure AlloyRlp where
  header : Codec RlpError Codec.Header
  u8 : Codec RlpError UInt8
  u64 : Codec RlpError UInt64
  address : Codec RlpError Address
  b256 : Codec RlpError B256
  u256 : Codec RlpError U256
  /-- the codec of `Vec<u8>` -/
  vec : Codec RlpError Bytes

structure AlloyRlp.Lawful (rlp : AlloyRlp) : Prop where
  header : Codec.LawfulHeader rlp.header
  u8 : rlp.u8.Lawful
  u64 : rlp.u64.Lawful
  address : rlp.address.Lawful
  b256 : rlp.b256.Lawful
  u256 : rlp.u256.Lawful
  vec : rlp.vec.Lawful
  /-- 32 bytes are a string behind a one-byte prefix. -/
  b256_head : ∀ h, ∃ tail, rlp.b256.encode h = 0xa0 :: tail

section Records
variable (rlp : AlloyRlp)

namespace L1IncomingMessageHeader

/-- The request id within a header: an empty list stands for none. -/
def requestIdCodec : Codec RlpError (Option B256) := Codec.marked 0xc0 rlp.b256

def length (self : L1IncomingMessageHeader) : Nat :=
  let payloadLen := rlp.u8.length self.kind + rlp.address.length self.poster +
    rlp.u64.length self.blockNumber + rlp.u64.length self.timestamp +
    (requestIdCodec rlp).length self.requestId + rlp.u256.length self.l1BaseFee
  Codec.lengthList rlp.header payloadLen

def encode (self : L1IncomingMessageHeader) : Bytes :=
  let contentLen := rlp.u8.length self.kind + rlp.address.length self.poster +
    rlp.u64.length self.blockNumber + rlp.u64.length self.timestamp +
    (requestIdCodec rlp).length self.requestId + rlp.u256.length self.l1BaseFee
  Codec.encodeList rlp.header contentLen
    (rlp.u8.encode self.kind ++ rlp.address.encode self.poster ++ rlp.u64.encode self.blockNumber ++
      rlp.u64.encode self.timestamp ++ (requestIdCodec rlp).encode self.requestId ++
      rlp.u256.encode self.l1BaseFee)

def decodeFields (bytes : Bytes) : Except RlpError (L1IncomingMessageHeader × Bytes) := do
  let (kind, bytes) ← rlp.u8.decode bytes
  let (poster, bytes) ← rlp.address.decode bytes
  let (blockNumber, bytes) ← rlp.u64.decode bytes
  let (timestamp, bytes) ← rlp.u64.decode bytes
  -- the byte that tells an absent request id is peeked at before any decoder runs
  if bytes = [] then .error .inputTooShort
  else do
    let (requestId, bytes) ← (requestIdCodec rlp).decode bytes
    let (l1BaseFee, bytes) ← rlp.u256.decode bytes
    return ({ kind, poster, blockNumber, timestamp, requestId, l1BaseFee }, bytes)

def decode : Bytes → Except RlpError (L1IncomingMessageHeader × Bytes) :=
  Codec.decodeList rlp.header (.custom "expected list for L1IncomingMessageHeader") .slicePanic
    (decodeFields rlp)

def codec : Codec RlpError L1IncomingMessageHeader where
  encode := encode rlp
  length := length rlp
  decode := decode rlp

end L1IncomingMessageHeader

namespace L1IncomingMessage

def length (self : L1IncomingMessage) : Nat :=
  let payloadLen := self.header.length rlp + rlp.vec.length self.l2msg
  let payloadLen := match self.batchGasCost with
    | some g => payloadLen + rlp.u64.length g
    | none => payloadLen
  Codec.lengthList rlp.header payloadLen

def encode (self : L1IncomingMessage) : Bytes :=
  let contentLen := self.header.length rlp + rlp.vec.length self.l2msg +
    (self.batchGasCost.map rlp.u64.length).getD 0
  Codec.encodeList rlp.header contentLen
    (self.header.encode rlp ++ rlp.vec.encode self.l2msg ++
      match self.batchGasCost with
      | some g => rlp.u64.encode g
      | none => [])

def decodeFields (bytes : Bytes) : Except RlpError (L1IncomingMessage × Bytes) := do
  let (header, bytes) ← L1IncomingMessageHeader.decode rlp bytes
  let (l2msg, bytes) ← rlp.vec.decode bytes
  if bytes = [] then return ({ header, l2msg, batchGasCost := none }, bytes)
  else do
    let (g, bytes) ← rlp.u64.decode bytes
    return ({ header, l2msg, batchGasCost := some g }, bytes)

def decode : Bytes → Except RlpError (L1IncomingMessage × Bytes) :=
  Codec.decodeList rlp.header (.custom "expected list for L1IncomingMessage") .slicePanic
    (decodeFields rlp)

def codec : Codec RlpError L1IncomingMessage where
  encode := encode rlp
  length := length rlp
  decode := decode rlp

end L1IncomingMessage

namespace MessageWithMetadata

def length (self : MessageWithMetadata) : Nat :=
  let payloadLen := self.message.length rlp + rlp.u64.length (.ofNat self.delayedMessagesRead)
  Codec.lengthList rlp.header payloadLen

def encode (self : MessageWithMetadata) : Bytes :=
  let payloadLen := self.message.length rlp + rlp.u64.length (.ofNat self.delayedMessagesRead)
  Codec.encodeList rlp.header payloadLen
    (self.message.encode rlp ++ rlp.u64.encode (.ofNat self.delayedMessagesRead))

def decodeFields (bytes : Bytes) : Except RlpError (MessageWithMetadata × Bytes) := do
  let (message, bytes) ← L1IncomingMessage.decode rlp bytes
  let (delayedMessagesRead, bytes) ← rlp.u64.decode bytes
  return ({ message, delayedMessagesRead := delayedMessagesRead.toNat }, bytes)

def decode : Bytes → Except RlpError (MessageWithMetadata × Bytes) :=
  Codec.decodeList rlp.header (.custom "expected list for MessageWithMetadata") .slicePanic
    (decodeFields rlp)

def codec : Codec RlpError MessageWithMetadata where
  encode := encode rlp
  length := length rlp
  decode := decode rlp

end MessageWithMetadata

structure BlockHashDbValue where
  blockHash : Option B256
  deriving DecidableEq

namespace BlockHashDbValue

/-- An empty string stands for no hash. -/
def blockHashCodec : Codec RlpError (Option B256) := Codec.marked 0x80 rlp.b256

def codec : Codec RlpError BlockHashDbValue where
  encode self := (blockHashCodec rlp).encode self.blockHash
  length self := (blockHashCodec rlp).length self.blockHash
  decode buf := do
    let (blockHash, buf) ← (blockHashCodec rlp).decode buf
    return ({ blockHash }, buf)

end BlockHashDbValue

namespace MessageResult

def length (self : MessageResult) : Nat :=
  let payloadLen := rlp.b256.length self.blockHash + rlp.b256.length self.sendRoot
  Codec.lengthList rlp.header payloadLen

def encode (self : MessageResult) : Bytes :=
  let payloadLen := rlp.b256.length self.blockHash + rlp.b256.length self.sendRoot
  Codec.encodeList rlp.header payloadLen
    (rlp.b256.encode self.blockHash ++ rlp.b256.encode self.sendRoot)

def decodeFields (bytes : Bytes) : Except RlpError (MessageResult × Bytes) := do
  let (blockHash, bytes) ← rlp.b256.decode bytes
  let (sendRoot, bytes) ← rlp.b256.decode bytes
  return ({ blockHash, sendRoot }, bytes)

def decode : Bytes → Except RlpError (MessageResult × Bytes) :=
  Codec.decodeList rlp.header (.custom "expected list for MessageResult") .slicePanic
    (decodeFields rlp)

def codec : Codec RlpError MessageResult where
  encode := encode rlp
  length := length rlp
  decode := decode rlp

end MessageResult

end Records

section RoundTrips
variable {rlp : AlloyRlp}

theorem AlloyRlp.Lawful.b256_apart (lawful : rlp.Lawful) {marker : UInt8} (different : 0xa0 ≠ marker)
    (h : B256) : ∃ head tail, rlp.b256.encode h = head :: tail ∧ head ≠ marker := by
  obtain ⟨tail, encoded⟩ := lawful.b256_head h
  exact ⟨0xa0, tail, encoded, different⟩

theorem L1IncomingMessageHeader.requestIdCodec_lawful (lawful : rlp.Lawful) :
    (requestIdCodec rlp).Lawful :=
  Codec.marked_lawful lawful.b256 (lawful.b256_apart (by decide))

theorem BlockHashDbValue.blockHashCodec_lawful (lawful : rlp.Lawful) :
    (blockHashCodec rlp).Lawful :=
  Codec.marked_lawful lawful.b256 (lawful.b256_apart (by decide))

/-- What the list of a header holds. -/
def L1IncomingMessageHeader.payload (rlp : AlloyRlp) (self : L1IncomingMessageHeader) : Bytes :=
  rlp.u8.encode self.kind ++ rlp.address.encode self.poster ++ rlp.u64.encode self.blockNumber ++
    rlp.u64.encode self.timestamp ++ (requestIdCodec rlp).encode self.requestId ++
    rlp.u256.encode self.l1BaseFee

theorem L1IncomingMessageHeader.payload_length (lawful : rlp.Lawful) (self : L1IncomingMessageHeader) :
    rlp.u8.length self.kind + rlp.address.length self.poster +
      rlp.u64.length self.blockNumber + rlp.u64.length self.timestamp +
      (requestIdCodec rlp).length self.requestId + rlp.u256.length self.l1BaseFee =
      (self.payload rlp).length := by
  have request := requestIdCodec_lawful lawful
  simp only [payload, List.length_append, lawful.u8.length_eq, lawful.address.length_eq,
    lawful.u64.length_eq, request.length_eq, lawful.u256.length_eq]

theorem L1IncomingMessageHeader.encode_payload (lawful : rlp.Lawful) (self : L1IncomingMessageHeader) :
    self.encode rlp = Codec.encodeList rlp.header (self.payload rlp).length (self.payload rlp) :=
  congrArg (Codec.encodeList rlp.header · _) (payload_length lawful self)

theorem L1IncomingMessageHeader.decodeFields_payload (lawful : rlp.Lawful) (self : L1IncomingMessageHeader) :
    decodeFields rlp (self.payload rlp) = .ok (self, []) := by
  have request := requestIdCodec_lawful lawful
  have : Nonempty B256 := ⟨.zero⟩
  have nonempty : (requestIdCodec rlp).encode self.requestId ++ rlp.u256.encode self.l1BaseFee ≠ [] :=
    List.append_ne_nil_of_left_ne_nil (request.encode_ne_nil _) _
  simp only [payload, decodeFields, List.append_assoc, lawful.u8.decode_encode, lawful.address.decode_encode,
    lawful.u64.decode_encode, request.decode_encode, lawful.u256.decode_encode_nil, bind, Except.bind,
    if_neg nonempty]
  rfl

theorem L1IncomingMessageHeader.codec_lawful (lawful : rlp.Lawful) : (codec rlp).Lawful := fun self =>
  .of_list lawful.header [] (congrArg (Codec.lengthList rlp.header) (payload_length lawful self))
    (encode_payload lawful self) rfl (decodeFields_payload lawful self)

/-- What the list of a message holds; nothing stands for an absent gas cost. -/
def L1IncomingMessage.payload (rlp : AlloyRlp) (self : L1IncomingMessage) : Bytes :=
  self.header.encode rlp ++ rlp.vec.encode self.l2msg ++
    match self.batchGasCost with
    | some g => rlp.u64.encode g
    | none => []

theorem L1IncomingMessage.payload_length (lawful : rlp.Lawful) (self : L1IncomingMessage) :
    self.header.length rlp + rlp.vec.length self.l2msg + (self.batchGasCost.map rlp.u64.length).getD 0 =
      (self.payload rlp).length := by
  have front : self.header.length rlp = (self.header.encode rlp).length :=
    (L1IncomingMessageHeader.codec_lawful lawful).length_eq self.header
  simp only [payload, List.length_append, front, lawful.vec.length_eq]
  cases self.batchGasCost with
  | none => rfl
  | some g => rw [Option.map_some, Option.getD_some, lawful.u64.length_eq]

theorem L1IncomingMessage.encode_payload (lawful : rlp.Lawful) (self : L1IncomingMessage) :
    self.encode rlp = Codec.encodeList rlp.header (self.payload rlp).length (self.payload rlp) :=
  congrArg (Codec.encodeList rlp.header · _) (payload_length lawful self)

theorem L1IncomingMessage.decodeFields_payload (lawful : rlp.Lawful) (self : L1IncomingMessage) :
    decodeFields rlp (self.payload rlp) = .ok (self, []) := by
  obtain ⟨header, l2msg, batchGasCost⟩ := self
  have readFront (rest : Bytes) :
      L1IncomingMessageHeader.decode rlp (header.encode rlp ++ rest) = .ok (header, rest) :=
    (L1IncomingMessageHeader.codec_lawful lawful).decode_encode header rest
  cases batchGasCost with
  | none =>
    simp only [payload, decodeFields, List.append_nil, readFront, lawful.vec.decode_encode_nil, bind,
      Except.bind, if_true]
    rfl
  | some g =>
    -- the leftover bytes that announce a gas cost are those of its encoding
    have : Nontrivial UInt64 := ⟨0, 1, by decide⟩
    simp only [payload, decodeFields, List.append_assoc, readFront, lawful.vec.decode_encode, bind,
      Except.bind, if_neg (lawful.u64.encode_ne_nil g), lawful.u64.decode_encode_nil]
    rfl

theorem L1IncomingMessage.codec_lawful (lawful : rlp.Lawful) : (codec rlp).Lawful := by
  intro self
  refine .of_list lawful.header [] ?_ (encode_payload lawful self) rfl (decodeFields_payload lawful self)
  rw [← payload_length lawful self]
  change Codec.lengthList rlp.header _ = _
  cases self.batchGasCost <;> rfl

/-- What the list of a stored message holds. -/
def MessageWithMetadata.payload (rlp : AlloyRlp) (self : MessageWithMetadata) : Bytes :=
  self.message.encode rlp ++ rlp.u64.encode (.ofNat self.delayedMessagesRead)

theorem MessageWithMetadata.payload_length (lawful : rlp.Lawful) (self : MessageWithMetadata) :
    self.message.length rlp + rlp.u64.length (.ofNat self.delayedMessagesRead) = (self.payload rlp).length := by
  have front : self.message.length rlp = (self.message.encode rlp).length :=
    (L1IncomingMessage.codec_lawful lawful).length_eq self.message
  simp only [payload, List.length_append, front, lawful.u64.length_eq]

theorem MessageWithMetadata.encode_payload (lawful : rlp.Lawful) (self : MessageWithMetadata) :
    self.encode rlp = Codec.encodeList rlp.header (self.payload rlp).length (self.payload rlp) :=
  congrArg (Codec.encodeList rlp.header · _) (payload_length lawful self)

theorem MessageWithMetadata.decodeFields_payload (lawful : rlp.Lawful) (message : L1IncomingMessage)
    (delayedMessagesRead : UInt64) :
    decodeFields rlp (payload rlp ⟨message, delayedMessagesRead.toNat⟩) =
      .ok (⟨message, delayedMessagesRead.toNat⟩, []) := by
  have readFront (rest : Bytes) :
      L1IncomingMessage.decode rlp (message.encode rlp ++ rest) = .ok (message, rest) :=
    (L1IncomingMessage.codec_lawful lawful).decode_encode message rest
  simp only [payload, decodeFields, readFront, UInt64.ofNat_toNat, lawful.u64.decode_encode_nil, bind,
    Except.bind]
  rfl

theorem MessageWithMetadata.codec_roundTrips (lawful : rlp.Lawful) (message : L1IncomingMessage)
    (delayedMessagesRead : UInt64) :
    (codec rlp).RoundTrips ⟨message, delayedMessagesRead.toNat⟩ :=
  .of_list lawful.header [] (congrArg (Codec.lengthList rlp.header) (payload_length lawful _))
    (encode_payload lawful _) rfl (decodeFields_payload lawful message delayedMessagesRead)

theorem BlockHashDbValue.codec_lawful (lawful : rlp.Lawful) : (codec rlp).Lawful := by
  intro self
  have inner := blockHashCodec_lawful lawful
  refine ⟨inner.length_eq self.blockHash, fun rest => ?_⟩
  simp only [codec, inner.decode_encode, bind, Except.bind]
  rfl

theorem MessageResult.codec_lawful (lawful : rlp.Lawful) : (codec rlp).Lawful := by
  intro self
  have measured : rlp.b256.length self.blockHash + rlp.b256.length self.sendRoot =
      (rlp.b256.encode self.blockHash ++ rlp.b256.encode self.sendRoot).length := by
    simp only [List.length_append, lawful.b256.length_eq]
  refine .of_list lawful.header [] (congrArg (Codec.lengthList rlp.header) measured)
    (congrArg (Codec.encodeList rlp.header · _) measured) rfl ?_
  simp only [decodeFields, lawful.b256.decode_encode, lawful.b256.decode_encode_nil, bind, Except.bind]
  rfl

/-- A stored record decodes to what was encoded, from the front of any buffer. -/
theorem stored_records_round_trip (lawful : rlp.Lawful) :
    (∀ (message : L1IncomingMessage) (delayedMessagesRead : UInt64),
      (MessageWithMetadata.codec rlp).RoundTrips ⟨message, delayedMessagesRead.toNat⟩) ∧
    (∀ value, (BlockHashDbValue.codec rlp).RoundTrips value) ∧
    ∀ result, (MessageResult.codec rlp).RoundTrips result :=
  ⟨MessageWithMetadata.codec_roundTrips lawful, BlockHashDbValue.codec_lawful lawful,
    MessageResult.codec_lawful lawful⟩

end RoundTrips

namespace RlpFormat

def numberCodec {α : Type} (toNat : α → Nat) (small : ∀ x, toNat x < 2 ^ 256) (ofNat : Nat → α) :
    Codec RlpError α :=
  .ofPartial .inputTooShort (fun x => Rlp.encodeString (Rlp.number (toNat x) (small x)))
    fun buf => (Rlp.decodeNumber buf).map fun (n, rest) => (ofNat n, rest)

theorem numberCodec_lawful {α : Type} {toNat : α → Nat} {small : ∀ x, toNat x < 2 ^ 256}
    {ofNat : Nat → α} (inverse : ∀ x, ofNat (toNat x) = x) :
    (numberCodec toNat small ofNat).Lawful := by
  apply Codec.ofPartial_lawful
  intro x rest
  simp only [Rlp.decodeNumber_encodeString, Option.map_some, inverse]

theorem fixed_small {width : Nat} (narrow : width < 2 ^ 64) (b : FixedBytes width) :
    b.val.length < 2 ^ 64 := by
  rw [b.property]
  exact narrow

def fixedCodec (width : Nat) (narrow : width < 2 ^ 64) : Codec RlpError (FixedBytes width) :=
  .ofPartial .unexpectedLength (fun b => Rlp.encodeString ⟨b.val, fixed_small narrow b⟩)
    (Rlp.decodeFixed width)

theorem fixedCodec_lawful {width : Nat} (narrow : width < 2 ^ 64) : (fixedCodec width narrow).Lawful :=
  Codec.ofPartial_lawful fun b rest => Rlp.decodeFixed_encodeString b (fixed_small narrow b) rest

/-- Of the headers only those of lists, which are all that the records ask for. -/
def headerCodec : Codec RlpError Codec.Header :=
  .ofPartial .inputTooShort (fun header => Rlp.encodeListHeader header.payloadLength)
    fun buf => (Rlp.decodeListHeader buf).map fun (n, rest) => (⟨true, n⟩, rest)

theorem u8_small (b : UInt8) : b.toNat < 2 ^ 256 := Nat.lt_trans b.toNat_lt (by decide)

/-- The codecs of `alloy_rlp` by the format's rules. -/
def alloyRlp : AlloyRlp where
  header := headerCodec
  u8 := numberCodec UInt8.toNat u8_small UInt8.ofNat
  u64 := numberCodec UInt64.toNat (fun n => Nat.lt_trans n.toNat_lt (by decide)) UInt64.ofNat
  address := fixedCodec 20 (by decide)
  b256 := fixedCodec 32 (by decide)
  u256 := numberCodec BitVec.toNat (fun n => n.isLt) (BitVec.ofNat 256)
  vec := .ofPartial .inputTooShort Rlp.encodeBytes Rlp.decodeBytes

theorem alloyRlp_lawful : alloyRlp.Lawful where
  header := by
    refine ⟨fun _ => rfl, fun n rest fits => ?_⟩
    simp only [alloyRlp, headerCodec, Codec.ofPartial, Rlp.decodeListHeader_encode fits, Option.map_some]
  u8 := numberCodec_lawful fun _ => UInt8.ofNat_toNat
  u64 := numberCodec_lawful fun _ => UInt64.ofNat_toNat
  address := fixedCodec_lawful (by decide)
  b256 := fixedCodec_lawful (by decide)
  u256 := numberCodec_lawful fun n => BitVec.ofNat_toNat 256 n ▸ BitVec.setWidth_eq n
  vec := Codec.ofPartial_lawful Rlp.decodeBytes_encodeBytes
  b256_head h := by
    refine ⟨h.val, ?_⟩
    have manyBytes : Rlp.isByte h.val = false := by
      rw [Bool.eq_false_iff]
      intro single
      obtain ⟨b, bytes, _⟩ := Rlp.isByte_iff.mp single
      have width := h.property
      rw [bytes] at width
      simp at width
    have short : h.val.length < 56 := by
      rw [h.property]
      decide
    simp only [alloyRlp, fixedCodec, Codec.ofPartial, Rlp.encodeString, manyBytes, Bool.false_eq_true,
      if_false, if_pos short]
    rw [h.property]
    rfl

end RlpFormat

theorem stored_records_round_trip_format :
    (∀ (message : L1IncomingMessage) (delayedMessagesRead : UInt64),
      (MessageWithMetadata.codec RlpFormat.alloyRlp).RoundTrips ⟨message, delayedMessagesRead.toNat⟩) ∧
    (∀ value, (BlockHashDbValue.codec RlpFormat.alloyRlp).RoundTrips value) ∧
    ∀ result, (MessageResult.codec RlpFormat.alloyRlp).RoundTrips result :=
  stored_records_round_trip RlpFormat.alloyRlp_lawful

end NitroRs
