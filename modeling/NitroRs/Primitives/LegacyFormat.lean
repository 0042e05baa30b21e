import NitroRs.Primitives.L1
import NitroRs.Lib.Outcome

/-! The legacy format of a delayed message as parts of fixed width in front of the
payload, and the parser and the serializer against it. -/
namespace NitroRs

theorem u64Be8_value (bytes : FixedBytes 8) : u64Be8 (.ofNat (BigEndian.value bytes.val)) = bytes.val := by
  have small := BigEndian.value_lt bytes.val
  rw [bytes.property] at small
  rw [u64Be8, UInt64.toNat_ofNat_of_lt' small, BigEndian.digits_value_of_length bytes.property]

theorem toBeBytes_value (bytes : FixedBytes 32) :
    U256.toBeBytes (.ofNat 256 (BigEndian.value bytes.val)) = bytes.val := by
  have small : BigEndian.value bytes.val < 2 ^ 256 := by
    calc BigEndian.value bytes.val < 256 ^ bytes.val.length := BigEndian.value_lt _
      _ = 256 ^ 32 := by rw [bytes.property]
      _ = 2 ^ 256 := by decide
  rw [U256.toBeBytes, BitVec.toNat_ofNat, Nat.mod_eq_of_lt small,
    BigEndian.digits_value_of_length bytes.property]

structure LegacyParts where
  kind : UInt8
  padding : FixedBytes 12
  poster : Address
  blockNumber : FixedBytes 8
  timestamp : FixedBytes 8
  requestId : B256
  l1BaseFee : FixedBytes 32
  l2msg : Bytes

namespace LegacyParts

def bytes (p : LegacyParts) : Bytes :=
  p.kind :: (p.padding.val ++ (p.poster.val ++ (p.blockNumber.val ++ (p.timestamp.val ++
    (p.requestId.val ++ (p.l1BaseFee.val ++ p.l2msg))))))

def message (p : LegacyParts) : L1IncomingMessage where
  header := {
    kind := p.kind
    poster := p.poster
    blockNumber := .ofNat (BigEndian.value p.blockNumber.val)
    timestamp := .ofNat (BigEndian.value p.timestamp.val)
    requestId := some p.requestId
    l1BaseFee := .ofNat 256 (BigEndian.value p.l1BaseFee.val) }
  l2msg := p.l2msg
  batchGasCost := none

/-- The parts that the serializer writes. -/
def ofMessage (msg : L1IncomingMessage) (requestId : B256) : LegacyParts where
  kind := msg.header.kind
  padding := .zero 12
  poster := msg.header.poster
  blockNumber := ⟨u64Be8 msg.header.blockNumber, u64Be8_length _⟩
  timestamp := ⟨u64Be8 msg.header.timestamp, u64Be8_length _⟩
  requestId
  l1BaseFee := ⟨U256.toBeBytes msg.header.l1BaseFee, toBeBytes_length _⟩
  l2msg := msg.l2msg

@[simp] theorem bytes_length (p : LegacyParts) : p.bytes.length = 113 + p.l2msg.length := by
  simp only [bytes, List.length_cons, List.length_append, p.padding.property, p.poster.property,
    p.blockNumber.property, p.timestamp.property, p.requestId.property, p.l1BaseFee.property]
  omega

theorem padding_eq (p : LegacyParts) : (p.bytes.drop 1).take 12 = p.padding.val := by
  rw [bytes, List.drop_one, List.tail_cons, List.take_left' p.padding.property]

/-- A byte string that is long enough has a front of the given width. -/
theorem exists_front (n : Nat) (bytes : Bytes) (fits : n ≤ bytes.length) :
    ∃ (front : FixedBytes n) (rest : Bytes), bytes = front.val ++ rest ∧
      rest.length = bytes.length - n :=
  ⟨⟨bytes.take n, List.length_take_of_le fits⟩, bytes.drop n, (List.take_append_drop n bytes).symm,
    List.length_drop⟩

theorem exists_parts {bytes : Bytes} (long : 113 ≤ bytes.length) :
    ∃ p : LegacyParts, p.bytes = bytes := by
  obtain ⟨kind, bytes, rfl⟩ := List.exists_cons_of_length_pos (by omega : 0 < bytes.length)
  simp only [List.length_cons] at long
  obtain ⟨padding, bytes, rfl, after⟩ := exists_front 12 bytes (by omega)
  obtain ⟨poster, bytes, rfl, after⟩ := exists_front 20 bytes (by omega)
  obtain ⟨blockNumber, bytes, rfl, after⟩ := exists_front 8 bytes (by omega)
  obtain ⟨timestamp, bytes, rfl, after⟩ := exists_front 8 bytes (by omega)
  obtain ⟨requestId, bytes, rfl, after⟩ := exists_front 32 bytes (by omega)
  obtain ⟨l1BaseFee, l2msg, rfl, after⟩ := exists_front 32 bytes (by omega)
  exact ⟨⟨kind, padding, poster, blockNumber, timestamp, requestId, l1BaseFee, l2msg⟩, rfl⟩

theorem readExact_append {n : Nat} (front : FixedBytes n) (rest : Bytes) :
    readExact n (front.val ++ rest) = .ok (front, rest) := by
  have fits : n ≤ (front.val ++ rest).length := by
    rw [List.length_append, front.property]
    exact Nat.le_add_right _ _
  simp only [readExact, dif_pos fits, List.take_left' front.property, List.drop_left' front.property]

theorem parse_bytes (p : LegacyParts) : parseIncomingL1MessageLegacy p.bytes = .ok p.message := by
  let kind : FixedBytes 1 := ⟨[p.kind], rfl⟩
  let word : FixedBytes 32 := ⟨p.padding.val ++ p.poster.val, by simp [p.padding.property, p.poster.property]⟩
  have front : p.bytes = kind.val ++ (word.val ++ (p.blockNumber.val ++ (p.timestamp.val ++
      (p.requestId.val ++ (p.l1BaseFee.val ++ p.l2msg))))) := by
    simp only [bytes, kind, word, List.singleton_append, List.append_assoc]
  have poster : word.val.drop 12 = p.poster.val := List.drop_left' p.padding.property
  simp only [front, parseIncomingL1MessageLegacy, readU64Be, readExact_append, bind, Except.bind, pure,
    Except.pure, poster]
  rfl

theorem serialize_message (p : LegacyParts) :
    serializeIncomingL1MessageLegacy p.message = .ok { p with padding := .zero 12 }.bytes := by
  simp only [serializeIncomingL1MessageLegacy, message, u64Be8_value, toBeBytes_value, bytes,
    List.append_assoc, List.cons_append]
  rfl

theorem serialize_ofMessage {msg : L1IncomingMessage} {requestId : B256}
    (present : msg.header.requestId = some requestId) :
    serializeIncomingL1MessageLegacy msg = .ok (ofMessage msg requestId).bytes := by
  simp only [serializeIncomingL1MessageLegacy, present, bytes, ofMessage, List.append_assoc, List.cons_append]
  rfl

theorem message_ofMessage {msg : L1IncomingMessage} {requestId : B256}
    (present : msg.header.requestId = some requestId) :
    (ofMessage msg requestId).message = { msg with batchGasCost := none } := by
  obtain ⟨⟨kind, poster, blockNumber, timestamp, _, l1BaseFee⟩, l2msg, batchGasCost⟩ := msg
  dsimp only at present
  subst present
  have fee : BitVec.ofNat 256 l1BaseFee.toNat = l1BaseFee := by
    rw [BitVec.ofNat_toNat, BitVec.setWidth_eq]
  simp only [message, ofMessage, value_u64Be8, value_toBeBytes, UInt64.ofNat_toNat, fee]

/-- The serializer restores every part but the padding. -/
theorem serialize_message_iff (p : LegacyParts) :
    serializeIncomingL1MessageLegacy p.message = .ok p.bytes ↔
      p.padding.val = List.replicate 12 0 := by
  rw [serialize_message, Except.ok.injEq]
  constructor
  · intro same
    rw [← p.padding_eq, ← same, padding_eq]
    rfl
  · intro zero
    have padding : p.padding = .zero 12 := Subtype.ext zero
    rw [← padding]

end LegacyParts

theorem readExact_length {n : Nat} {rdr rest : Bytes} {front : FixedBytes n}
    (read : readExact n rdr = .ok (front, rest)) : rdr.length = n + rest.length := by
  unfold readExact at read
  split at read
  · rename_i fits
    injection read with pair
    injection pair with _ left
    rw [← left, List.length_drop]
    omega
  · contradiction

theorem readU64Be_length {rdr rest : Bytes} {n : UInt64} (read : readU64Be rdr = .ok (n, rest)) :
    rdr.length = 8 + rest.length := by
  obtain ⟨⟨bytes, left⟩, exact8, done⟩ := Outcome.except_bind_eq_ok.mp read
  injection done with pair
  injection pair with _ same
  rw [← same]
  exact readExact_length exact8

/-- A buffer that is too short for the fixed parts fails one of the reads. -/
theorem length_of_parse {b : Bytes} {msg : L1IncomingMessage}
    (parsed : parseIncomingL1MessageLegacy b = .ok msg) : 113 ≤ b.length := by
  obtain ⟨⟨_, _⟩, kind, parsed⟩ := Outcome.except_bind_eq_ok.mp parsed
  obtain ⟨⟨_, _⟩, addr32, parsed⟩ := Outcome.except_bind_eq_ok.mp parsed
  obtain ⟨⟨_, _⟩, blockNumber, parsed⟩ := Outcome.except_bind_eq_ok.mp parsed
  obtain ⟨⟨_, _⟩, timestamp, parsed⟩ := Outcome.except_bind_eq_ok.mp parsed
  obtain ⟨⟨_, _⟩, req, parsed⟩ := Outcome.except_bind_eq_ok.mp parsed
  obtain ⟨⟨_, _⟩, basefee, _⟩ := Outcome.except_bind_eq_ok.mp parsed
  rw [readExact_length kind, readExact_length addr32, readU64Be_length blockNumber,
    readU64Be_length timestamp, readExact_length req, readExact_length basefee]
  omega

theorem parse_legacy_isOk_iff (b : Bytes) :
    (∃ msg, parseIncomingL1MessageLegacy b = .ok msg) ↔ 113 ≤ b.length := by
  constructor
  · rintro ⟨msg, parsed⟩
    exact length_of_parse parsed
  · intro long
    obtain ⟨p, rfl⟩ := LegacyParts.exists_parts long
    exact ⟨p.message, p.parse_bytes⟩

theorem serialize_of_parse {b : Bytes} {msg : L1IncomingMessage}
    (parsed : parseIncomingL1MessageLegacy b = .ok msg) :
    serializeIncomingL1MessageLegacy msg = .ok b ↔ (b.drop 1).take 12 = List.replicate 12 0 := by
  obtain ⟨p, rfl⟩ := LegacyParts.exists_parts (length_of_parse parsed)
  rw [p.parse_bytes] at parsed
  injection parsed with same
  rw [← same, p.serialize_message_iff, p.padding_eq]

theorem parse_of_serialize {msg : L1IncomingMessage} {requestId : B256}
    (present : msg.header.requestId = some requestId) :
    (serializeIncomingL1MessageLegacy msg).bind parseIncomingL1MessageLegacy =
      .ok { msg with batchGasCost := none } := by
  rw [LegacyParts.serialize_ofMessage present, ← LegacyParts.message_ofMessage present]
  exact LegacyParts.parse_bytes _

/-- The serializer and the parser are inverse to each other on the byte strings whose
address padding is zero; the gas cost is not part of the format. -/
theorem legacy_format :
    (∀ msg : L1IncomingMessage, msg.header.requestId.isSome →
      (serializeIncomingL1MessageLegacy msg).bind parseIncomingL1MessageLegacy =
        .ok { msg with batchGasCost := none }) ∧
    (∀ b, (∃ msg, parseIncomingL1MessageLegacy b = .ok msg) ↔ 113 ≤ b.length) ∧
    ∀ b msg, parseIncomingL1MessageLegacy b = .ok msg →
      (serializeIncomingL1MessageLegacy msg = .ok b ↔
        (b.drop 1).take 12 = List.replicate 12 0) := by
  refine ⟨fun msg present => ?_, parse_legacy_isOk_iff, fun b msg => serialize_of_parse⟩
  obtain ⟨requestId, present⟩ := Option.isSome_iff_exists.mp present
  exact parse_of_serialize present

/-- A message with a value in every field. -/
def filledIncoming : L1IncomingMessage :=
  ⟨⟨3, ⟨List.replicate 20 7, rfl⟩, 258, 9, some ⟨List.replicate 32 5, rfl⟩, 6⟩, [0xca, 0xfe], some 1000⟩

/-- Its bytes, but for one byte in the padding of the address. -/
def dirtyPadding : Bytes :=
  3 :: List.replicate 11 0 ++ 1 :: List.replicate 20 7 ++ [0, 0, 0, 0, 0, 0, 1, 2] ++ [0, 0, 0, 0, 0, 0, 0, 9] ++
    List.replicate 32 5 ++ (List.replicate 31 0 ++ [6]) ++ [0xca, 0xfe]

theorem legacy_format_filled :
    (serializeIncomingL1MessageLegacy filledIncoming).bind parseIncomingL1MessageLegacy =
      .ok { filledIncoming with batchGasCost := none } ∧
    ∃ msg, parseIncomingL1MessageLegacy dirtyPadding = .ok msg ∧ serializeIncomingL1MessageLegacy msg ≠ .ok dirtyPadding := by
  obtain ⟨msg, parsed⟩ := (legacy_format.2.1 dirtyPadding).mpr (by decide)
  refine ⟨legacy_format.1 filledIncoming rfl, msg, parsed, fun same => ?_⟩
  exact absurd ((legacy_format.2.2 _ msg parsed).mp same) (by decide)

end NitroRs
