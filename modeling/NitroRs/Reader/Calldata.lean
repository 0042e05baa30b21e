import NitroRs.Poster.RoundTrip

/-! The scan for the batch data in a transaction's input. It takes every word for an
offset until one leads to a length and to as many bytes. A sum of an offset and a length
is formed before it is compared, and may overflow. -/
namespace NitroRs
namespace InboxReader

/-- The offset leads to a length and to as many bytes, all within the parameters. -/
def Addresses (params : Bytes) (off : Nat) : Prop :=
  off + 32 + u256At params off ≤ params.length ∧ off + 32 + u256At params off < 2 ^ 64

/-- A `usize`, but the end of its length word is none, or that of the bytes behind it. -/
def Overflows (params : Bytes) (off : Nat) : Prop :=
  off < 2 ^ 64 ∧ (2 ^ 64 ≤ off + 32 ∨
    off + 32 ≤ params.length ∧ u256At params off < 2 ^ 64 ∧ 2 ^ 64 ≤ off + 32 + u256At params off)

instance (params : Bytes) (off : Nat) : Decidable (Addresses params off) := inferInstanceAs (Decidable (_ ∧ _))

instance (params : Bytes) (off : Nat) : Decidable (Overflows params off) := inferInstanceAs (Decidable (_ ∧ _))

/-- The bytes that an offset leads to. -/
def addressed (params : Bytes) (off : Nat) : Bytes := (params.drop (off + 32)).take (u256At params off)

variable {params : Bytes} {off : Nat}

theorem bytesAt_overflows (overflows : Overflows params off) : bytesAt params off = .error .overflow := by
  obtain ⟨usize, wordEnd | ⟨fits, lengthUsize, bytesEnd⟩⟩ := overflows
  · rw [bytesAt, if_neg (Nat.not_le.mpr usize), if_pos wordEnd]
  · unfold bytesAt
    rw [if_neg (Nat.not_le.mpr usize)]
    split
    · rfl
    · rw [if_neg (Nat.not_lt.mpr fits)]
      simp only [if_neg (Nat.not_le.mpr lengthUsize), if_pos bytesEnd]

theorem bytesAt_addresses (addresses : Addresses params off) :
    bytesAt params off = .ok (some (addressed params off)) := by
  obtain ⟨fits, usize⟩ := addresses
  have offset : ¬ 2 ^ 64 ≤ off := by omega
  have wordEnd : ¬ 2 ^ 64 ≤ off + 32 := by omega
  have wordFits : ¬ params.length < off + 32 := by omega
  have length : ¬ 2 ^ 64 ≤ u256At params off := by omega
  simp only [bytesAt, if_neg offset, if_neg wordEnd, if_neg wordFits, if_neg length,
    if_neg (Nat.not_le.mpr usize), if_neg (Nat.not_lt.mpr fits), addressed]

theorem bytesAt_skips (addresses : ¬ Addresses params off) (overflows : ¬ Overflows params off) :
    bytesAt params off = .ok none := by
  unfold bytesAt
  split
  · rfl
  · rename_i usize
    have wordEnd : ¬ 2 ^ 64 ≤ off + 32 := fun past => overflows ⟨by omega, .inl past⟩
    rw [if_neg wordEnd]
    split
    · rfl
    · rename_i fits
      dsimp only
      split
      · rfl
      · rename_i length
        have bytesEnd : ¬ 2 ^ 64 ≤ off + 32 + u256At params off := fun past =>
          overflows ⟨by omega, .inr ⟨by omega, by omega, past⟩⟩
        rw [if_neg bytesEnd]
        split
        · rfl
        · exact absurd ⟨by omega, by omega⟩ addresses

theorem not_overflows_of_addresses (addresses : Addresses params off) : ¬ Overflows params off := by
  intro overflows
  rw [Addresses] at addresses
  rw [Overflows] at overflows
  omega

theorem addressed_infix (params : Bytes) (off : Nat) : addressed params off <:+: params :=
  (List.take_prefix _ (params.drop (off + 32))).isInfix.trans (params.drop_suffix (off + 32)).isInfix

/-- The scan ends at the first word that leads anywhere or overflows. -/
theorem locateBytes_range' (params : Bytes) (first count : Nat) :
    locateBytes params (List.range' first count) = .error .overflow ∧
      (∃ i, first ≤ i ∧ i < first + count ∧ Overflows params (u256At params (i * 32)) ∧
        ∀ j, first ≤ j → j < i → ¬ Addresses params (u256At params (j * 32))) ∨
    ((∃ bytes, locateBytes params (List.range' first count) = .ok bytes ∧ bytes <:+: params) ∨
        locateBytes params (List.range' first count) = .error (.inbox .noDynamicBytes)) ∧
      ∀ i, first ≤ i → i < first + count → Overflows params (u256At params (i * 32)) →
        ∃ j, first ≤ j ∧ j < i ∧ Addresses params (u256At params (j * 32)) := by
  induction count generalizing first with
  | zero => exact .inr ⟨.inr rfl, fun i low high => by omega⟩
  | succ count ih =>
    rw [List.range'_succ, locateBytes]
    by_cases overflows : Overflows params (u256At params (first * 32))
    · rw [bytesAt_overflows overflows]
      exact .inl ⟨rfl, first, le_rfl, by omega, overflows, fun j low high => by omega⟩
    · by_cases addresses : Addresses params (u256At params (first * 32))
      · rw [bytesAt_addresses addresses]
        refine .inr ⟨.inl ⟨_, rfl, addressed_infix _ _⟩, fun i low high found => ⟨first, le_rfl, ?_, addresses⟩⟩
        rcases low.eq_or_lt with rfl | after
        · exact absurd found overflows
        · exact after
      · rw [bytesAt_skips addresses overflows]
        rcases ih (first + 1) with ⟨panics, i, low, high, found, none⟩ | ⟨safe, behind⟩
        · refine .inl ⟨panics, i, by omega, by omega, found, fun j from' before => ?_⟩
          rcases from'.eq_or_lt with rfl | after
          · exact addresses
          · exact none j after before
        · refine .inr ⟨safe, fun i low high found => ?_⟩
          rcases low.eq_or_lt with rfl | after
          · exact absurd found overflows
          · obtain ⟨j, from', before, leads⟩ := behind i after (by omega) found
            exact ⟨j, by omega, before, leads⟩

/-- The extraction answers with a slice of the parameters or with an error. -/
def StaysInRange (txInput : Bytes) : Prop :=
  (∃ bytes, extractBatchData txInput = .ok bytes ∧ bytes <:+: txInput.drop 4) ∨
    ∃ e, extractBatchData txInput = .error (.inbox e)

/-- No overflow is reached exactly if an earlier word than each of those that overflow
leads to bytes. -/
theorem staysInRange_iff (txInput : Bytes) : StaysInRange txInput ↔
    ∀ i < (txInput.drop 4).length / 32, Overflows (txInput.drop 4) (u256At (txInput.drop 4) (i * 32)) →
      ∃ j < i, Addresses (txInput.drop 4) (u256At (txInput.drop 4) (j * 32)) := by
  unfold StaysInRange extractBatchData
  split
  · rename_i short
    refine iff_of_true (.inr ⟨_, rfl⟩) fun i inside => ?_
    rw [List.length_drop] at inside
    omega
  · simp only [List.range_eq_range']
    rcases locateBytes_range' (txInput.drop 4) 0 ((txInput.drop 4).length / 32) with
      ⟨panics, i, -, inside, found, none⟩ | ⟨safe, behind⟩
    · rw [panics]
      refine iff_of_false (by simp) fun all => ?_
      obtain ⟨j, before, leads⟩ := all i (by omega) found
      exact none j (Nat.zero_le j) before leads
    · refine iff_of_true ?_ fun i inside found => ?_
      · rcases safe with found | missing
        · exact .inl found
        · exact .inr ⟨_, missing⟩
      · obtain ⟨j, -, before, leads⟩ := behind i (Nat.zero_le i) (by omega) found
        exact ⟨j, before, leads⟩

/-- A word at the end of the `usize` range. -/
theorem high_offset_panics : ¬ ∀ txInput : Bytes, StaysInRange txInput := by
  intro safe
  have panics : extractBatchData (List.replicate 28 0 ++ List.replicate 8 0xff) = .error .overflow := by
    decide +kernel
  rcases safe (List.replicate 28 0 ++ List.replicate 8 0xff) with ⟨bytes, found, -⟩ | ⟨e, failed⟩
  · rw [panics] at found
    cases found
  · rw [panics] at failed
    cases failed

theorem u256At_first {value : Nat} (small : value < 2 ^ 256) (rest : Bytes) :
    u256At (Abi.encodeWord value ++ rest) 0 = value := by
  rw [u256At, List.drop_zero, List.take_left' (Abi.encodeWord_length value)]
  exact BigEndian.value_digits (by simpa using small)

theorem u256At_append {front : Bytes} (place : front.length = off) (rest : Bytes) :
    u256At (front ++ rest) off = u256At rest 0 := by
  rw [u256At, u256At, List.drop_left' place, List.drop_zero]

/-- The layout of the call: the sequence number, the offset of the data, four words, and
the data behind its length. -/
theorem encode_args (call : AddSequencerL2BatchFromOriginCall) : ∃ words : Bytes, words.length = 128 ∧
    Abi.encode call.args = Abi.encodeWord call.sequenceNumber.toNat ++ (Abi.encodeWord 192 ++ (words ++
      (Abi.encodeWord call.data.length ++ Abi.padded call.data))) := by
  refine ⟨Abi.encodeWord call.afterDelayedMessagesRead.toNat ++
    Abi.encodeWord (BigEndian.value call.gasRefunder.val) ++ Abi.encodeWord call.prevMessageCount.toNat ++
    Abi.encodeWord call.newMessageCount.toNat, ?_, ?_⟩
  · simp only [List.length_append, Abi.encodeWord_length]
  · simp only [Abi.encode, AddSequencerL2BatchFromOriginCall.args, Abi.head, Abi.tail, List.length_cons,
      List.length_nil, List.flatMap_cons, List.flatMap_nil, List.append_assoc, List.append_nil,
      List.nil_append]

/-- The second word leads to the data. -/
theorem data_addressed (call : AddSequencerL2BatchFromOriginCall)
    (slice : (Abi.encode call.args).length < 2 ^ 63) :
    u256At (Abi.encode call.args) 32 = 192 ∧ Addresses (Abi.encode call.args) 192 ∧
      addressed (Abi.encode call.args) 192 = call.data := by
  obtain ⟨words, width, layout⟩ := encode_args call
  have sequence := Abi.encodeWord_length call.sequenceNumber.toNat
  have offset := Abi.encodeWord_length 192
  have total : 224 + call.data.length ≤ (Abi.encode call.args).length := by
    rw [layout]
    simp only [List.length_append, Abi.encodeWord_length, width, Abi.padded]
    omega
  have front : (Abi.encodeWord call.sequenceNumber.toNat ++ (Abi.encodeWord 192 ++ words)).length = 192 := by
    rw [List.length_append, List.length_append, sequence, offset, width]
  have regrouped : Abi.encode call.args = (Abi.encodeWord call.sequenceNumber.toNat ++
      (Abi.encodeWord 192 ++ words)) ++ (Abi.encodeWord call.data.length ++ Abi.padded call.data) := by
    rw [layout, List.append_assoc, List.append_assoc]
  have length : u256At (Abi.encode call.args) 192 = call.data.length := by
    rw [regrouped, u256At_append front, u256At_first (by omega)]
  refine ⟨?_, ⟨by omega, by omega⟩, ?_⟩
  · rw [layout, u256At_append sequence, u256At_first (by decide)]
  · have behind : (Abi.encode call.args).drop (192 + 32) = Abi.padded call.data := by
      rw [regrouped, ← List.append_assoc]
      exact List.drop_left' (by rw [List.length_append, front, Abi.encodeWord_length])
    rw [addressed, length, behind, Abi.padded, List.take_left]

/-- The sequence number comes first. The data is found exactly if that number leads
nowhere as an offset, or to the same bytes. -/
theorem extracts_data_iff (selector : FixedBytes 4) (call : AddSequencerL2BatchFromOriginCall)
    (slice : (selector.val ++ Abi.encode call.args).length < 2 ^ 63) :
    extractBatchData (selector.val ++ Abi.encode call.args) = .ok call.data ↔
      (¬ Overflows (Abi.encode call.args) call.sequenceNumber.toNat ∧
        ¬ Addresses (Abi.encode call.args) call.sequenceNumber.toNat) ∨
      (Addresses (Abi.encode call.args) call.sequenceNumber.toNat ∧
        addressed (Abi.encode call.args) call.sequenceNumber.toNat = call.data) := by
  have words : call.args.length = 6 := rfl
  have long := Abi.encode_length_ge call.args
  rw [List.length_append] at slice
  obtain ⟨second, leads, found⟩ := data_addressed call (by omega)
  have first : u256At (Abi.encode call.args) 0 = call.sequenceNumber.toNat := by
    obtain ⟨words, -, layout⟩ := encode_args call
    rw [layout, u256At_first call.sequenceNumber.isLt]
  have enough : ¬ (selector.val ++ Abi.encode call.args).length < 4 + 32 := by
    rw [List.length_append, selector.property]
    omega
  obtain ⟨later, range⟩ : ∃ later, List.range ((Abi.encode call.args).length / 32) = 0 :: 1 :: later := by
    obtain ⟨n, count⟩ : ∃ n, (Abi.encode call.args).length / 32 = n + 2 :=
      ⟨(Abi.encode call.args).length / 32 - 2, by omega⟩
    exact ⟨List.range' 2 n, by rw [count, List.range_eq_range', List.range'_succ, List.range'_succ]⟩
  have scan : extractBatchData (selector.val ++ Abi.encode call.args) =
      locateBytes (Abi.encode call.args) (0 :: 1 :: later) := by
    rw [extractBatchData, if_neg enough]
    simp only [List.drop_left' selector.property, range]
  rw [scan, locateBytes, Nat.zero_mul, first]
  by_cases overflows : Overflows (Abi.encode call.args) call.sequenceNumber.toNat
  · rw [bytesAt_overflows overflows]
    refine iff_of_false (by simp) ?_
    rintro (⟨none, -⟩ | ⟨addresses, -⟩)
    · exact none overflows
    · exact not_overflows_of_addresses addresses overflows
  · by_cases addresses : Addresses (Abi.encode call.args) call.sequenceNumber.toNat
    · rw [bytesAt_addresses addresses]
      simp [addresses]
    · rw [bytesAt_skips addresses overflows]
      refine iff_of_true ?_ (.inl ⟨overflows, addresses⟩)
      simp only [locateBytes, Nat.one_mul, second, bytesAt_addresses leads, found]

section Samples

def sampleCall (sequenceNumber : U256) (data : Bytes) : AddSequencerL2BatchFromOriginCall :=
  ⟨sequenceNumber, data, 0, .zero, 0, 0⟩

/-- A sequence number past the end of the call leads nowhere. -/
theorem late_batch_extracted :
    extractBatchData ([0x8f, 0x11, 0x1f, 0x3c] ++ Abi.encode (sampleCall 300 [0, 7]).args) = .ok [0, 7] :=
  (extracts_data_iff ⟨[0x8f, 0x11, 0x1f, 0x3c], rfl⟩ (sampleCall 300 [0, 7]) (by decide +kernel)).mpr
    (.inl (by decide +kernel))

/-- The sequence number 0 leads to itself, a length of 0. -/
theorem first_batch_lost : ¬ ∀ (selector : FixedBytes 4) (call : AddSequencerL2BatchFromOriginCall),
    (selector.val ++ Abi.encode call.args).length < 2 ^ 63 →
    extractBatchData (selector.val ++ Abi.encode call.args) = .ok call.data := by
  intro extracts
  have found := extracts ⟨[0x8f, 0x11, 0x1f, 0x3c], rfl⟩ (sampleCall 0 [0, 7]) (by decide +kernel)
  revert found
  decide +kernel

end Samples

end InboxReader
end NitroRs
