import NitroRs.Primitives.Message

/-! Batch bytes: a 40-byte header followed by a payload of RLP segments. -/
namespace NitroRs

structure SequencerMessage where
  minTimestamp : UInt64
  maxTimestamp : UInt64
  minL1Block : UInt64
  maxL1Block : UInt64
  afterDelayedMessages : Nat
  segments : List Bytes
  deriving DecidableEq

/-- The loop stops at the first segment past this many. -/
def segmentCap : Nat := 100 * 1024

/-- The decoding loop, with the number of segments it may still push. -/
def decodeSegments [Externals] : Nat → Bytes → List Bytes
  | 0, _ => []
  | n + 1, cur =>
      if cur.isEmpty then [] else
        match rlpDecodeVec cur with
        | some (seg, rest) => seg :: decodeSegments n rest
        | none => []

/-- The big-endian `u64` at byte offset `off`. -/
def u64beAt (data : Bytes) (off : Nat) : Nat := BigEndian.value ((data.drop off).take 8)

def parseSegments [Externals] : Bytes → Except Error (List Bytes)
  | [] => .ok []
  | first :: rest =>
      if first = 0x01 then
        match brotliDecompress rest with
        | some decompressed => .ok (decodeSegments (segmentCap + 1) decompressed)
        | none => .error .brotli
      else .ok (decodeSegments (segmentCap + 1) (first :: rest))

/-- The batch number and block hash arguments of the source are unused. -/
def parseSequencerMessage [Externals] (data : Bytes) : Except Error SequencerMessage :=
  if data.length < 40 then .error .missingL1Header
  else do
    let segments ← parseSegments (data.drop 40)
    return {
      minTimestamp := .ofNat (u64beAt data 0)
      maxTimestamp := .ofNat (u64beAt data 8)
      minL1Block := .ofNat (u64beAt data 16)
      maxL1Block := .ofNat (u64beAt data 24)
      afterDelayedMessages := u64beAt data 32
      segments }

/-- The 40 bytes that the reader puts in front of the batch data. -/
def batchHeader (bounds : TimeBounds) (afterDelayedCount : Nat) : Bytes :=
  u64Be8 bounds.minTimestamp ++ u64Be8 bounds.maxTimestamp ++ u64Be8 bounds.minBlockNumber ++
    u64Be8 bounds.maxBlockNumber ++ BigEndian.digits 8 afterDelayedCount

/-- The codec of segments undoes itself, also in front of other bytes. -/
def RlpRoundTrips [Externals] : Prop := ∀ s rest, rlpDecodeVec (rlpEncodeVec s ++ rest) = some (s, rest)

def BrotliRoundTrips [Externals] : Prop := ∀ data, brotliDecompress (brotliCompress data) = some data

theorem u64beAt_lt (data : Bytes) (off : Nat) : u64beAt data off < 2 ^ 64 := by
  have bound := BigEndian.value_lt ((data.drop off).take 8)
  have short : ((data.drop off).take 8).length ≤ 8 := List.length_take_le ..
  calc u64beAt data off < 256 ^ ((data.drop off).take 8).length := bound
    _ ≤ 256 ^ 8 := Nat.pow_le_pow_right (by decide) short
    _ = 2 ^ 64 := by decide

theorem decodeSegments_length [Externals] (n : Nat) (cur : Bytes) :
    (decodeSegments n cur).length ≤ n := by
  induction n generalizing cur with
  | zero => simp [decodeSegments]
  | succ n ih =>
    unfold decodeSegments
    split
    · simp
    · split
      · simpa using ih _
      · simp

theorem parseSegments_length [Externals] {payload : Bytes} {segments : List Bytes}
    (parsed : parseSegments payload = .ok segments) : segments.length ≤ segmentCap + 1 := by
  cases payload with
  | nil =>
    cases parsed
    simp
  | cons first rest =>
    simp only [parseSegments] at parsed
    split at parsed
    · split at parsed
      · cases parsed
        exact decodeSegments_length _ _
      · contradiction
    · cases parsed
      exact decodeSegments_length _ _

/-- Everything a successful parse says about the batch bytes. -/
theorem parseSequencerMessage_eq_ok [Externals] {data : Bytes} {seq : SequencerMessage} :
    parseSequencerMessage data = .ok seq ↔ 40 ≤ data.length ∧
      ∃ segments, parseSegments (data.drop 40) = .ok segments ∧
        seq = ⟨.ofNat (u64beAt data 0), .ofNat (u64beAt data 8), .ofNat (u64beAt data 16),
          .ofNat (u64beAt data 24), u64beAt data 32, segments⟩ := by
  unfold parseSequencerMessage
  split
  · simp only [reduceCtorEq, false_iff, not_and]
    omega
  · cases parseSegments (data.drop 40) with
    | error e => simp [bind, Except.bind]
    | ok segments =>
      simp only [bind, Except.bind, pure, Except.pure, Except.ok.injEq, exists_eq_left']
      constructor
      · rintro rfl
        exact ⟨by omega, rfl⟩
      · rintro ⟨_, rfl⟩
        rfl

/-- A codec that undoes itself never encodes to nothing. -/
theorem rlpEncodeVec_ne_nil [Externals] (rlp : RlpRoundTrips) (s : Bytes) : rlpEncodeVec s ≠ [] := by
  intro empty
  have every (t : Bytes) : t = s := by
    have here := rlp s (rlpEncodeVec t)
    have there := rlp t []
    rw [empty, List.nil_append] at here
    rw [List.append_nil, here] at there
    exact (congrArg Prod.fst (Option.some.inj there)).symm
  exact absurd ((every []).trans (every [0]).symm) nofun

/-- Decoding a list of encoded segments gives as many of them as asked for. -/
theorem decodeSegments_take [Externals] (rlp : RlpRoundTrips) (segments : List Bytes) (n : Nat) :
    decodeSegments n (segments.flatMap rlpEncodeVec) = segments.take n := by
  induction segments generalizing n with
  | nil => cases n <;> rfl
  | cons seg rest ih =>
    cases n with
    | zero => rfl
    | succ n =>
      have nonempty : (rlpEncodeVec seg ++ rest.flatMap rlpEncodeVec).isEmpty = false := by
        simp [rlpEncodeVec_ne_nil rlp seg]
      rw [List.flatMap_cons, decodeSegments, nonempty, rlp]
      simp only [Bool.false_eq_true, if_false, ih, List.take_succ_cons]

theorem decodeSegments_encode [Externals] (rlp : RlpRoundTrips) {segments : List Bytes} {n : Nat}
    (fits : segments.length ≤ n) : decodeSegments n (segments.flatMap rlpEncodeVec) = segments := by
  rw [decodeSegments_take rlp, List.take_of_length_le fits]

theorem u64beAt_append (front : Bytes) {word rest : Bytes} {off : Nat} (position : front.length = off)
    (width : word.length = 8) : u64beAt (front ++ (word ++ rest)) off = BigEndian.value word := by
  rw [u64beAt, List.drop_left' position, List.take_left' width]

/-- The parser reads back the header that the reader writes. -/
theorem parseSequencerMessage_batchHeader [Externals] (bounds : TimeBounds) {count : Nat}
    (small : count < 2 ^ 64) (payload : Bytes) :
    parseSequencerMessage (batchHeader bounds count ++ payload) =
      (parseSegments payload).map fun segments => ⟨bounds.minTimestamp, bounds.maxTimestamp,
        bounds.minBlockNumber, bounds.maxBlockNumber, count, segments⟩ := by
  have length : (batchHeader bounds count).length = 40 := by
    simp only [batchHeader, List.length_append, u64Be8_length, BigEndian.digits_length]
  have bytes : batchHeader bounds count ++ payload =
      u64Be8 bounds.minTimestamp ++ (u64Be8 bounds.maxTimestamp ++ (u64Be8 bounds.minBlockNumber ++
        (u64Be8 bounds.maxBlockNumber ++ (BigEndian.digits 8 count ++ payload)))) := by
    simp only [batchHeader, List.append_assoc]
  have first : u64beAt (batchHeader bounds count ++ payload) 0 = bounds.minTimestamp.toNat := by
    rw [bytes, ← value_u64Be8]
    exact u64beAt_append [] rfl (u64Be8_length _)
  have second : u64beAt (batchHeader bounds count ++ payload) 8 = bounds.maxTimestamp.toNat := by
    rw [bytes, ← value_u64Be8]
    exact u64beAt_append _ (u64Be8_length _) (u64Be8_length _)
  have third : u64beAt (batchHeader bounds count ++ payload) 16 = bounds.minBlockNumber.toNat := by
    rw [bytes, ← List.append_assoc, ← value_u64Be8]
    exact u64beAt_append _ (by simp) (u64Be8_length _)
  have fourth : u64beAt (batchHeader bounds count ++ payload) 24 = bounds.maxBlockNumber.toNat := by
    rw [bytes, ← List.append_assoc, ← List.append_assoc, ← value_u64Be8]
    exact u64beAt_append _ (by simp) (u64Be8_length _)
  have fifth : u64beAt (batchHeader bounds count ++ payload) 32 = count := by
    rw [bytes, ← List.append_assoc, ← List.append_assoc, ← List.append_assoc]
    rw [u64beAt_append _ (by simp) (BigEndian.digits_length _ _), BigEndian.value_digits small]
  have enough : ¬ (batchHeader bounds count ++ payload).length < 40 := by
    rw [List.length_append, length]
    omega
  rw [parseSequencerMessage, if_neg enough, List.drop_left' length, first, second, third, fourth,
    fifth]
  cases parseSegments payload with
  | error e => rfl
  | ok segments =>
    simp only [bind, Except.bind, pure, Except.pure, Except.map, UInt64.ofNat_toNat]

end NitroRs
