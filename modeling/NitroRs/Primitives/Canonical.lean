import NitroRs.Primitives.Records

/-! How many encodings a stored message has. The decoders cut each list out by its declared
length and skip to its end, so bytes behind the last field are not seen; without such bytes the
encoding is the only one. -/
namespace NitroRs
open Codec

structure AlloyRlp.Canonical (rlp : AlloyRlp) : Prop where
  header : CanonicalHeader rlp.header
  u8 : rlp.u8.Canonical
  u64 : rlp.u64.Canonical
  address : rlp.address.Canonical
  b256 : rlp.b256.Canonical
  u256 : rlp.u256.Canonical
  vec : rlp.vec.Canonical

section
variable (rlp : AlloyRlp)

namespace L1IncomingMessageHeader

/-- What follows the fields of a header in its list. -/
def behindFields (payload : Bytes) : Option Bytes := do
  let bytes ← rlp.u8.behind payload
  let bytes ← rlp.address.behind bytes
  let bytes ← rlp.u64.behind bytes
  let bytes ← rlp.u64.behind bytes
  let bytes ← (requestIdCodec rlp).behind bytes
  rlp.u256.behind bytes

/-- Nothing follows the fields. -/
def Full (buf : Bytes) : Prop :=
  ∃ payload rest, splitList rlp.header buf = some (payload, rest) ∧ behindFields rlp payload = some []

end L1IncomingMessageHeader

namespace L1IncomingMessage

def behindFields (payload : Bytes) : Option Bytes := do
  let (_, bytes) ← splitList rlp.header payload
  let bytes ← rlp.vec.behind bytes
  if bytes = [] then return [] else rlp.u64.behind bytes

def Full (buf : Bytes) : Prop :=
  ∃ payload rest, splitList rlp.header buf = some (payload, rest) ∧
    L1IncomingMessageHeader.Full rlp payload ∧ behindFields rlp payload = some []

end L1IncomingMessage

namespace MessageWithMetadata

def behindFields (payload : Bytes) : Option Bytes := do
  let (_, bytes) ← splitList rlp.header payload
  rlp.u64.behind bytes

/-- In none of the three lists of a stored message anything follows the last field. -/
def Full (buf : Bytes) : Prop :=
  ∃ payload rest, splitList rlp.header buf = some (payload, rest) ∧
    L1IncomingMessage.Full rlp payload ∧ behindFields rlp payload = some []

end MessageWithMetadata

end

section
variable {rlp : AlloyRlp} {buf payload rest left : Bytes}

namespace L1IncomingMessageHeader
variable {x : L1IncomingMessageHeader}

theorem decodeFields_canonical (canonical : rlp.Canonical) (ran : decodeFields rlp payload = .ok (x, left)) :
    behindFields rlp payload = some left ∧ payload = x.payload rlp ++ left := by
  obtain ⟨⟨kind, b₁⟩, first, ran⟩ := Outcome.except_bind_eq_ok.mp ran
  obtain ⟨⟨poster, b₂⟩, second, ran⟩ := Outcome.except_bind_eq_ok.mp ran
  obtain ⟨⟨blockNumber, b₃⟩, third, ran⟩ := Outcome.except_bind_eq_ok.mp ran
  obtain ⟨⟨timestamp, b₄⟩, fourth, ran⟩ := Outcome.except_bind_eq_ok.mp ran
  simp only at ran
  split at ran
  · contradiction
  · obtain ⟨⟨requestId, b₅⟩, fifth, ran⟩ := Outcome.except_bind_eq_ok.mp ran
    obtain ⟨⟨l1BaseFee, b₆⟩, sixth, ran⟩ := Outcome.except_bind_eq_ok.mp ran
    cases ran
    constructor
    · simp only [behindFields, behind_of_decode first, behind_of_decode second, behind_of_decode third,
        behind_of_decode fourth, behind_of_decode fifth, behind_of_decode sixth, Option.bind_eq_bind,
        Option.bind_some]
    · have request : b₄ = (requestIdCodec rlp).encode requestId ++ b₅ :=
        marked_canonical canonical.b256 _ _ _ fifth
      have fee : b₅ = _ := canonical.u256 _ _ _ sixth
      rw [canonical.u8 _ _ _ first, canonical.address _ _ _ second, canonical.u64 _ _ _ third,
        canonical.u64 _ _ _ fourth, request, fee]
      simp only [L1IncomingMessageHeader.payload, requestIdCodec, List.append_assoc]

theorem decode_canonical_iff (lawful : rlp.Lawful) (canonical : rlp.Canonical)
    (ran : decode rlp buf = .ok (x, rest)) : buf = x.encode rlp ++ rest ↔ Full rlp buf := by
  have iff := list_canonical_iff (fun _ => True) lawful.header canonical.header
    (decodeFields_payload lawful x) (fun _ _ read => (decodeFields_canonical canonical read).imp_right
      fun same => iff_of_true same trivial) ran
  rw [encode_payload lawful, iff]
  simp only [true_and]
  rfl

end L1IncomingMessageHeader

namespace L1IncomingMessage
variable {x : L1IncomingMessage}

theorem decodeFields_canonical (lawful : rlp.Lawful) (canonical : rlp.Canonical)
    (ran : decodeFields rlp payload = .ok (x, left)) : behindFields rlp payload = some left ∧
      (payload = x.payload rlp ++ left ↔ L1IncomingMessageHeader.Full rlp payload) := by
  obtain ⟨⟨header, b₁⟩, first, ran⟩ := Outcome.except_bind_eq_ok.mp ran
  obtain ⟨_, _, split, _⟩ := decodeList_ok first
  obtain ⟨⟨l2msg, b₂⟩, second, ran⟩ := Outcome.except_bind_eq_ok.mp ran
  rw [← L1IncomingMessageHeader.decode_canonical_iff lawful canonical first]
  simp only at ran
  split at ran
  · rename_i empty
    cases ran
    constructor
    · simp only [behindFields, split, behind_of_decode second, Option.bind_eq_bind, Option.bind_some, empty,
        if_true]
      rfl
    · simp only [L1IncomingMessage.payload, canonical.vec _ _ _ second, List.append_assoc, List.nil_append]
  · rename_i more
    obtain ⟨⟨g, b₃⟩, third, ran⟩ := Outcome.except_bind_eq_ok.mp ran
    cases ran
    constructor
    · simp only [behindFields, split, behind_of_decode second, behind_of_decode third, Option.bind_eq_bind,
        Option.bind_some, if_neg more]
    · simp only [L1IncomingMessage.payload, canonical.vec _ _ _ second, canonical.u64 _ _ _ third,
        List.append_assoc]

theorem decode_canonical_iff (lawful : rlp.Lawful) (canonical : rlp.Canonical)
    (ran : decode rlp buf = .ok (x, rest)) : buf = x.encode rlp ++ rest ↔ Full rlp buf := by
  rw [encode_payload lawful]
  exact list_canonical_iff _ lawful.header canonical.header (decodeFields_payload lawful x)
    (fun _ _ read => decodeFields_canonical lawful canonical read) ran

end L1IncomingMessage

namespace MessageWithMetadata
variable {x : MessageWithMetadata}

/-- The delayed count that is read fits the codec that it is written with. -/
theorem decodeFields_count (ran : decodeFields rlp payload = .ok (x, left)) :
    ∃ message delayedMessagesRead, x = ⟨message, UInt64.toNat delayedMessagesRead⟩ := by
  obtain ⟨⟨message, b₁⟩, _, ran⟩ := Outcome.except_bind_eq_ok.mp ran
  obtain ⟨⟨delayedMessagesRead, b₂⟩, _, ran⟩ := Outcome.except_bind_eq_ok.mp ran
  cases ran
  exact ⟨message, delayedMessagesRead, rfl⟩

theorem decodeFields_canonical (lawful : rlp.Lawful) (canonical : rlp.Canonical)
    (ran : decodeFields rlp payload = .ok (x, left)) : behindFields rlp payload = some left ∧
      (payload = x.payload rlp ++ left ↔ L1IncomingMessage.Full rlp payload) := by
  obtain ⟨⟨message, b₁⟩, first, ran⟩ := Outcome.except_bind_eq_ok.mp ran
  obtain ⟨_, _, split, _⟩ := decodeList_ok first
  obtain ⟨⟨delayedMessagesRead, b₂⟩, second, ran⟩ := Outcome.except_bind_eq_ok.mp ran
  cases ran
  rw [← L1IncomingMessage.decode_canonical_iff lawful canonical first]
  constructor
  · simp only [behindFields, split, behind_of_decode second, Option.bind_eq_bind, Option.bind_some]
  · simp only [MessageWithMetadata.payload, canonical.u64 _ _ _ second, UInt64.ofNat_toNat, List.append_assoc]

theorem decode_canonical_iff (lawful : rlp.Lawful) (canonical : rlp.Canonical)
    (ran : decode rlp buf = .ok (x, rest)) : buf = x.encode rlp ++ rest ↔ Full rlp buf := by
  obtain ⟨_, _, _, read⟩ := decodeList_ok ran
  obtain ⟨message, delayedMessagesRead, rfl⟩ := decodeFields_count read
  rw [encode_payload lawful]
  exact list_canonical_iff _ lawful.header canonical.header
    (decodeFields_payload lawful message delayedMessagesRead)
    (fun _ _ read => decodeFields_canonical lawful canonical read) ran

end MessageWithMetadata

/-- A byte string that is read as a message, whole, is its encoding exactly when nothing
follows the fields of its lists; no other such byte string is read as this message. -/
theorem stored_message_canonical_iff {bytes : Bytes} {m : MessageWithMetadata} (lawful : rlp.Lawful)
    (canonical : rlp.Canonical) (read : MessageWithMetadata.decode rlp bytes = .ok (m, [])) :
    (m.encode rlp = bytes ↔ MessageWithMetadata.Full rlp bytes) ∧
      ∀ bytes', MessageWithMetadata.decode rlp bytes' = .ok (m, []) →
        MessageWithMetadata.Full rlp bytes → MessageWithMetadata.Full rlp bytes' → bytes' = bytes := by
  have iff {b : Bytes} (read : MessageWithMetadata.decode rlp b = .ok (m, [])) :
      m.encode rlp = b ↔ MessageWithMetadata.Full rlp b := by
    rw [← MessageWithMetadata.decode_canonical_iff lawful canonical read, List.append_nil, eq_comm]
  exact ⟨iff read, fun bytes' read' full full' => ((iff read').mpr full').symm.trans ((iff read).mpr full)⟩

end

namespace RlpFormat

/-- The codecs of `alloy_rlp`, which turn down other encodings. -/
def strictRlp : AlloyRlp where
  header := strict .nonCanonicalSize alloyRlp.header
  u8 := strict .nonCanonicalSize alloyRlp.u8
  u64 := strict .nonCanonicalSize alloyRlp.u64
  address := strict .nonCanonicalSize alloyRlp.address
  b256 := strict .nonCanonicalSize alloyRlp.b256
  u256 := strict .nonCanonicalSize alloyRlp.u256
  vec := strict .nonCanonicalSize alloyRlp.vec

theorem strictRlp_lawful : strictRlp.Lawful where
  header := ⟨alloyRlp_lawful.header.length_eq, fun n rest fits =>
    strict_decode_encode _ (alloyRlp_lawful.header.decode_encode n rest fits)⟩
  u8 := strict_lawful alloyRlp_lawful.u8
  u64 := strict_lawful alloyRlp_lawful.u64
  address := strict_lawful alloyRlp_lawful.address
  b256 := strict_lawful alloyRlp_lawful.b256
  u256 := strict_lawful alloyRlp_lawful.u256
  vec := strict_lawful alloyRlp_lawful.vec
  b256_head := alloyRlp_lawful.b256_head

theorem strictRlp_canonical : strictRlp.Canonical where
  header buf n rest read := strict_canonical RlpError.nonCanonicalSize alloyRlp.header buf ⟨true, n⟩ rest read
  u8 := strict_canonical _ _
  u64 := strict_canonical _ _
  address := strict_canonical _ _
  b256 := strict_canonical _ _
  u256 := strict_canonical _ _
  vec := strict_canonical _ _

end RlpFormat

section Samples
open RlpFormat

def emptyMessage : MessageWithMetadata := ⟨⟨⟨3, ⟨List.replicate 20 0, rfl⟩, 0, 0, none, 0⟩, [], none⟩, 0⟩

def emptyBytes : Bytes :=
  [0xde, 0xdc, 0xda, 3, 0x94] ++ List.replicate 20 0 ++ [0x80, 0x80, 0xc0, 0x80, 0xc0, 0x80]

/-- One more byte in the outer list, behind the delayed count. -/
def looseBytes : Bytes :=
  [0xdf, 0xdc, 0xda, 3, 0x94] ++ List.replicate 20 0 ++ [0x80, 0x80, 0xc0, 0x80, 0xc0, 0x80, 0x80]

theorem emptyBytes_decode : MessageWithMetadata.decode strictRlp emptyBytes = .ok (emptyMessage, []) := by
  decide +kernel

theorem emptyBytes_full : MessageWithMetadata.Full strictRlp emptyBytes :=
  (stored_message_canonical_iff strictRlp_lawful strictRlp_canonical emptyBytes_decode).1.mp (by decide +kernel)

theorem loose_bytes_accepted : strictRlp.Lawful ∧ strictRlp.Canonical ∧
    MessageWithMetadata.decode strictRlp looseBytes = .ok (emptyMessage, []) ∧
    MessageWithMetadata.decode strictRlp emptyBytes = .ok (emptyMessage, []) ∧
    emptyMessage.encode strictRlp ≠ looseBytes ∧ emptyBytes ≠ looseBytes :=
  ⟨strictRlp_lawful, strictRlp_canonical, by decide +kernel, emptyBytes_decode, by decide +kernel, by decide⟩

end Samples
end NitroRs
