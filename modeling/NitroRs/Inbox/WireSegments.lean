import NitroRs.Codecs
import NitroRs.Lib.Rlp

/-! Payloads in Nitro's wire format, where each segment is an RLP byte string. The
parser decodes each segment as a list of bytes, and a list decoder takes no string. -/
namespace NitroRs

section
variable [Externals]

/-- `Decodable` for `Vec<T>`: a header that is not a list's is an error. -/
def VecDecodesLists : Prop := ∀ head rest, head < 0xc0 → rlpDecodeVec (head :: rest) = none

def wirePayload (segments : List Rlp.Str) : Bytes := segments.flatMap Rlp.encodeString

theorem decodeSegments_wirePayload (lists : VecDecodesLists) {segments : List Rlp.Str}
    (some : segments ≠ []) (n : Nat) : decodeSegments n (wirePayload segments) = [] := by
  obtain ⟨first, later, rfl⟩ := List.exists_cons_of_ne_nil some
  obtain ⟨head, rest, encoded, isString⟩ := Rlp.encodeString_head first
  rw [wirePayload, List.flatMap_cons, encoded, List.cons_append]
  cases n with
  | zero => rfl
  | succ n => simp only [decodeSegments, List.isEmpty_cons, Bool.false_eq_true, if_false,
      lists head _ isString]

/-- A payload that spells out its segments in the string grammar is parsed to no segment,
whatever the segments are. -/
theorem wire_segments_never_parsed (lists : VecDecodesLists) (brotli : BrotliRoundTrips)
    (header : FixedBytes 40) {segments : List Rlp.Str} (some : segments ≠ [])
    (fits : segments.length ≤ segmentCap + 1) :
    Rlp.decodeStrings (segmentCap + 1) (wirePayload segments) = segments.map Subtype.val ∧
    (∃ seq, parseSequencerMessage (header.val ++ 0x01 :: brotliCompress (wirePayload segments)) = .ok seq ∧
      seq.segments = []) ∧
    ¬ ∃ seq, parseSequencerMessage (header.val ++ 0x01 :: brotliCompress (wirePayload segments)) = .ok seq ∧
      seq.segments = segments.map Subtype.val := by
  have parsed : parseSegments (0x01 :: brotliCompress (wirePayload segments)) = .ok [] := by
    rw [parseSegments, if_pos rfl, brotli]
    simp only [decodeSegments_wirePayload lists some]
  have rest : (header.val ++ 0x01 :: brotliCompress (wirePayload segments)).drop 40 =
      0x01 :: brotliCompress (wirePayload segments) := List.drop_left' header.property
  have enough : 40 ≤ (header.val ++ 0x01 :: brotliCompress (wirePayload segments)).length := by
    rw [List.length_append, header.property]
    exact Nat.le_add_right 40 _
  refine ⟨Rlp.decodeStrings_flatMap fits, ⟨_, parseSequencerMessage_eq_ok.mpr ⟨enough, [], ?_, rfl⟩, rfl⟩, ?_⟩
  · rw [rest, parsed]
  · rintro ⟨seq, read, same⟩
    obtain ⟨_, decoded, payload, rfl⟩ := parseSequencerMessage_eq_ok.mp read
    rw [rest, parsed] at payload
    cases payload
    exact some (List.map_eq_nil_iff.mp same.symm)

end

namespace ListCodecs

/-- The sample functions, with a decoder that takes lists only. -/
scoped instance listCodecs : Externals :=
  { Codecs.codecs with
    rlpDecodeVec := fun data =>
      match data with
      | [] => none
      | head :: rest => if head < 0xc0 then none else Codecs.rlpDecodeVec (head :: rest) }

theorem lists : VecDecodesLists := by
  intro head rest isString
  exact if_pos isString

theorem brotli : BrotliRoundTrips := Codecs.brotliDecompress_compress

/-- Two segments of one and two bytes. -/
def wireSegments : List Rlp.Str := [⟨[0x42], by decide⟩, ⟨[0, 7], by decide⟩]

theorem two_wire_segments_dropped : wireSegments ≠ [] ∧ ∃ seq,
    parseSequencerMessage ((FixedBytes.zero 40).val ++
      0x01 :: brotliCompress (wirePayload wireSegments)) = .ok seq ∧ seq.segments = [] := by
  obtain ⟨_, dropped, _⟩ := wire_segments_never_parsed lists brotli (FixedBytes.zero 40)
    (List.cons_ne_nil _ _ : wireSegments ≠ []) (by decide)
  exact ⟨List.cons_ne_nil _ _, dropped⟩

/-- One segment as another node writes it: `0x82 0x00 0x07`. -/
theorem wire_segment_is_lost : wirePayload [⟨[0, 7], by decide⟩] = [0x82, 0, 7] ∧
    ¬ ∃ seq, parseSequencerMessage ((FixedBytes.zero 40).val ++
      0x01 :: brotliCompress [0x82, 0, 7]) = .ok seq ∧ seq.segments = [[0, 7]] := by
  have read : parseSequencerMessage ((FixedBytes.zero 40).val ++ 0x01 :: brotliCompress [0x82, 0, 7]) =
      .ok ⟨0, 0, 0, 0, 0, []⟩ := by decide +kernel
  refine ⟨rfl, ?_⟩
  rintro ⟨seq, parsed, same⟩
  cases read.symm.trans parsed
  cases same

end ListCodecs
end NitroRs
