import NitroRs.Inbox.SequencerMessage

/-! Concrete external functions, to evaluate the model. The RLP codec and the
stored brotli format follow their specifications up to the sizes they state;
past these sizes an escape keeps the functions total. The hash stands in for
keccak256: nothing proved depends on its values. -/
namespace NitroRs.Codecs

/-- The RLP string of a `u8`. -/
def encodeU8 (b : UInt8) : Bytes :=
  if b = 0 then [0x80] else if b < 0x80 then [b] else [0x81, b]

/-- A run of `u8` strings; `true` when the prefix of a two-byte string was read. -/
def decodeU8s : Bool → Bytes → Option Bytes
  | false, [] => some []
  | true, [] => none
  | true, b :: rest => if b < 0x80 then none else (decodeU8s false rest).map (b :: ·)
  | false, b :: rest =>
    if b = 0x80 then (decodeU8s false rest).map (0 :: ·)
    else if b ≠ 0 ∧ b < 0x80 then (decodeU8s false rest).map (b :: ·)
    else if b = 0x81 then decodeU8s true rest
    else none

/-- A marker before every byte and none at the end. -/
def escape (s : Bytes) : Bytes := s.flatMap (fun b => [1, b]) ++ [0]

def unescape : Bytes → Option (Bytes × Bytes)
  | 1 :: b :: rest => (unescape rest).map fun (s, rest) => (b :: s, rest)
  | 0 :: rest => some ([], rest)
  | _ => none

/-- The RLP list of the bytes, in the short form below 56 bytes of payload. -/
def rlpEncodeVec (s : Bytes) : Bytes :=
  let payload := s.flatMap encodeU8
  if payload.length < 56 then .ofNat (0xc0 + payload.length) :: payload else 0 :: escape s

def rlpDecodeVec : Bytes → Option (Bytes × Bytes)
  | [] => none
  | head :: rest =>
    if head = 0 then unescape rest
    else
      let length := head.toNat - 0xc0
      if 0xc0 ≤ head ∧ length < 56 ∧ length ≤ rest.length then
        (decodeU8s false (rest.take length)).map (·, rest.drop length)
      else none

def rlpDecodeU64 : Bytes → Option (UInt64 × Bytes)
  | [] => none
  | head :: rest =>
    if head = 0x80 then some (0, rest)
    else if head < 0x80 then if head = 0 then none else some (.ofNat head.toNat, rest)
    else
      let length := head.toNat - 0x80
      let digits := rest.take length
      if length ≤ 8 ∧ length ≤ rest.length ∧ digits.head? ≠ some 0 ∧
          ¬ (length = 1 ∧ BigEndian.value digits < 0x80) then
        some (.ofNat (BigEndian.value digits), rest.drop length)
      else none

/-- One uncompressed meta-block and the empty last one, up to 65536 bytes. -/
def brotliCompress (data : Bytes) : Bytes :=
  if data = [] then [0x3b]
  else if data.length ≤ 65536 then
    let m := data.length - 1
    .ofNat (0x0b + 128 * (m % 2)) :: .ofNat (m / 2 % 256) :: .ofNat (m / 512 + 128) :: (data ++ [3])
  else 0xff :: data

def brotliDecompress : Bytes → Option Bytes
  | a :: b :: c :: rest =>
    if a = 0xff then some (b :: c :: rest)
    else if a.toNat % 128 = 0x0b ∧ 128 ≤ c.toNat then
      let m := a.toNat / 128 + 2 * b.toNat + 512 * (c.toNat - 128)
      if rest.drop (m + 1) = [3] then some (rest.take (m + 1)) else none
    else none
  | [a] => if a = 0x3b then some [] else none
  | _ => none

def hash (data : Bytes) : B256 :=
  ⟨BigEndian.digits 32 (data.foldl (fun acc b => (acc * 257 + b.toNat + 1) % 2 ^ 256) 0),
    BigEndian.digits_length _ _⟩

scoped instance codecs : Externals where
  keccak256 := hash
  brotliDecompress := brotliDecompress
  brotliCompress := brotliCompress
  rlpDecodeVec := rlpDecodeVec
  rlpEncodeVec := rlpEncodeVec
  rlpDecodeU64 := rlpDecodeU64

/-- A batch whose data is its segments, uncompressed, with bounds that admit every
time and block. -/
def batch (sequenceNumber afterDelayedCount : Nat) (segments : List Bytes) : SequencerInboxBatch where
  sequenceNumber
  beforeInboxAcc := .zero
  afterInboxAcc := .zero
  afterDelayedCount
  afterDelayedAcc := .zero
  timeBounds := ⟨0, 0xffffffffffffffff, 0, 0xffffffffffffffff⟩
  dataLocation := 0
  parentChainBlockNumber := 0
  blockHash := .zero
  txHash := .zero
  serialized := batchHeader ⟨0, 0xffffffffffffffff, 0, 0xffffffffffffffff⟩ afterDelayedCount ++
    segments.flatMap rlpEncodeVec

theorem decodeU8s_encodeU8 (b : UInt8) (rest : Bytes) :
    decodeU8s false (encodeU8 b ++ rest) = (decodeU8s false rest).map (b :: ·) := by
  unfold encodeU8
  by_cases zero : b = 0
  · subst zero
    rfl
  · rw [if_neg zero]
    by_cases small : b < 0x80
    · have apart : b ≠ 0x80 := by
        rintro rfl
        exact absurd small (by decide)
      rw [if_pos small, List.singleton_append, decodeU8s, if_neg apart, if_pos ⟨zero, small⟩]
    · rw [if_neg small, List.cons_append, List.singleton_append, decodeU8s, if_neg (by decide),
        if_neg (by decide), if_pos rfl, decodeU8s, if_neg small]

theorem decodeU8s_flatMap (s : Bytes) : decodeU8s false (s.flatMap encodeU8) = some s := by
  induction s with
  | nil => rfl
  | cons b s ih => rw [List.flatMap_cons, decodeU8s_encodeU8, ih, Option.map_some]

theorem unescape_escape (s rest : Bytes) : unescape (escape s ++ rest) = some (s, rest) := by
  induction s with
  | nil => rfl
  | cons b s ih =>
    simp only [escape, List.flatMap_cons, List.append_assoc, List.cons_append,
      List.nil_append] at ih ⊢
    simp only [unescape, ih, Option.map_some]

theorem rlpDecodeVec_encode (s rest : Bytes) : rlpDecodeVec (rlpEncodeVec s ++ rest) = some (s, rest) := by
  unfold rlpEncodeVec
  simp only
  split
  · rename_i short
    have head : (UInt8.ofNat (0xc0 + (s.flatMap encodeU8).length)).toNat =
        0xc0 + (s.flatMap encodeU8).length := by
      rw [UInt8.toNat_ofNat']
      omega
    have nonzero : UInt8.ofNat (0xc0 + (s.flatMap encodeU8).length) ≠ 0 := by
      intro zero
      rw [← UInt8.toNat_inj, head] at zero
      simp at zero
    have isList : 0xc0 ≤ UInt8.ofNat (0xc0 + (s.flatMap encodeU8).length) := by
      rw [UInt8.le_iff_toNat_le, head]
      exact Nat.le_add_right _ _
    have length : 0xc0 + (s.flatMap encodeU8).length - 0xc0 = (s.flatMap encodeU8).length := by omega
    rw [List.cons_append, rlpDecodeVec, if_neg nonzero]
    simp only [head, length, isList, short, List.length_append, Nat.le_add_right, and_self, if_true,
      List.take_left, List.drop_left, decodeU8s_flatMap, Option.map_some]
  · rw [List.cons_append, rlpDecodeVec, if_pos rfl, unescape_escape]

theorem brotliDecompress_compress (data : Bytes) : brotliDecompress (brotliCompress data) = some data := by
  unfold brotliCompress
  split
  · rename_i empty
    rw [empty]
    rfl
  · rename_i nonempty
    split
    · rename_i short
      have positive := List.length_pos_iff.mpr nonempty
      obtain ⟨m, length⟩ : ∃ m, data.length = m + 1 := ⟨data.length - 1, by omega⟩
      have first : (UInt8.ofNat (0x0b + 128 * (m % 2))).toNat = 0x0b + 128 * (m % 2) := by
        rw [UInt8.toNat_ofNat']
        omega
      have second : (UInt8.ofNat (m / 2 % 256)).toNat = m / 2 % 256 := by
        rw [UInt8.toNat_ofNat']
        omega
      have third : (UInt8.ofNat (m / 512 + 128)).toNat = m / 512 + 128 := by
        rw [UInt8.toNat_ofNat']
        omega
      have total : (0x0b + 128 * (m % 2)) / 128 + 2 * (m / 2 % 256) + 512 * (m / 512) = m := by omega
      have apart : UInt8.ofNat (0x0b + 128 * (m % 2)) ≠ 0xff := by
        intro same
        rw [← UInt8.toNat_inj, first] at same
        change 0x0b + 128 * (m % 2) = 0xff at same
        omega
      have last : (data ++ [3]).drop (m + 1) = [3] := List.drop_left' length
      have front : (data ++ [3]).take (m + 1) = data := List.take_left' length
      have marked : (0x0b + 128 * (m % 2)) % 128 = 0x0b ∧ 128 ≤ m / 512 + 128 := by omega
      simp only [length, Nat.add_sub_cancel, brotliDecompress, if_neg apart, first, second, third,
        if_pos marked, total, last, front, if_true]
    · rename_i long
      obtain ⟨b, c, rest, rfl⟩ : ∃ b c rest, data = b :: c :: rest := by
        match data with
        | [] => exact absurd rfl nonempty
        | [b] => simp at long
        | b :: c :: rest => exact ⟨b, c, rest, rfl⟩
      rfl

theorem rlp : RlpRoundTrips := rlpDecodeVec_encode

theorem brotli : BrotliRoundTrips := brotliDecompress_compress

/-- No encoding starts like a compressed payload. -/
theorem parseSegments_encode {segments : List Bytes} (fits : segments.length ≤ segmentCap + 1) :
    parseSegments (segments.flatMap rlpEncodeVec) = .ok segments := by
  have decoded : decodeSegments (segmentCap + 1) (segments.flatMap rlpEncodeVec) = segments :=
    decodeSegments_encode rlp fits
  cases segments with
  | nil => rfl
  | cons seg rest =>
    obtain ⟨head, tail, encoded, apart⟩ : ∃ head tail, rlpEncodeVec seg = head :: tail ∧ head ≠ 1 := by
      unfold rlpEncodeVec
      simp only
      split
      · refine ⟨_, _, rfl, fun same => ?_⟩
        rw [← UInt8.toNat_inj, UInt8.toNat_ofNat'] at same
        change _ = 1 at same
        omega
      · exact ⟨_, _, rfl, by decide⟩
    rw [List.flatMap_cons, encoded, List.cons_append] at decoded ⊢
    rw [parseSegments, if_neg apart, decoded]

theorem parse_batch (sequenceNumber : Nat) {count : Nat} (small : count < 2 ^ 64)
    {segments : List Bytes} (fits : segments.length ≤ segmentCap + 1) :
    parseSequencerMessage (batch sequenceNumber count segments).serialized =
      .ok ⟨0, 0xffffffffffffffff, 0, 0xffffffffffffffff, count, segments⟩ := by
  rw [batch, parseSequencerMessage_batchHeader _ small, parseSegments_encode fits]
  rfl

end NitroRs.Codecs
