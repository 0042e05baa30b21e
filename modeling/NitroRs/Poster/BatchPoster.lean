import NitroRs.Codecs
import NitroRs.Lib.Outcome

/-! The batch poster's builder: a header, and the compressed segments of the source.
What it builds, the inbox parses back. -/
namespace NitroRs
open Outcome

inductive ParentChainBound where
  | latest
  | safe
  | finalized
  | ignore
  deriving DecidableEq

def ParentChainBound.parse (s : String) : ParentChainBound :=
  match s.toLower with
  | "safe" => .safe
  | "finalized" => .finalized
  | "ignore" => .ignore
  | _ => .latest

structure L1Bounds where
  minTs : UInt64
  maxTs : UInt64
  minBlock : UInt64
  maxBlock : UInt64
  deriving DecidableEq

/-- What the poster reads of an L1 block. -/
structure L1Block where
  number : UInt64
  timestamp : UInt64

/-- An L1 node: connecting to it fails on a bad address, and so may each request. -/
abbrev L1Provider := Except Error (ParentChainBound → Except Error (Option L1Block))

structure SegmentSource where
  maxBytes : Nat
  nextSegments : Nat → List Bytes

structure BatchPoster where
  parentChainBound : String
  /-- The count that the function gives at this call. -/
  delayedCountFn : Option UInt64
  segmentSource : Option SegmentSource
  lastAfterDelayed : Option UInt64

namespace BatchPoster

def openBounds : L1Bounds := ⟨0, 0xffffffffffffffff, 0, 0xffffffffffffffff⟩

def resolveL1Bounds (bound : ParentChainBound) (provider : L1Provider) : Except Error L1Bounds :=
  if bound = .ignore then .ok openBounds
  else
    match provider with
    | .error e => .error e
    | .ok getBlockByNumber =>
      match getBlockByNumber bound with
      | .ok (some block) => .ok ⟨0, block.timestamp, 0, block.number⟩
      | .ok none | .error _ => .ok openBounds

def afterDelayed (poster : BatchPoster) : UInt64 := poster.delayedCountFn.getD 0

def segments (poster : BatchPoster) : List Bytes :=
  match poster.segmentSource with
  | some src => src.nextSegments src.maxBytes
  | none => []

section
variable [Externals]

/-- The payload: the compression marker and the compressed segments. -/
def batchPayload (segments : List Bytes) : Bytes := 0x01 :: brotliCompress (segments.flatMap rlpEncodeVec)

def assembleBatch (bounds : L1Bounds) (afterDelayed : UInt64) (segments : List Bytes) : Bytes :=
  u64Be8 bounds.minTs ++ u64Be8 bounds.maxTs ++ u64Be8 bounds.minBlock ++ u64Be8 bounds.maxBlock ++
    u64Be8 afterDelayed ++ batchPayload segments

/-- Nothing is built for a delayed count that was already used; the count is taken
before anything can fail. -/
def buildBatchBytes (provider : L1Provider) : EStateM Error BatchPoster (Option Bytes) := do
  let poster ← read
  if poster.lastAfterDelayed = some poster.afterDelayed then return none
  else
    update fun poster => { poster with lastAfterDelayed := some poster.afterDelayed }
    let bounds ← lift (resolveL1Bounds (.parse poster.parentChainBound) provider)
    return some (assembleBatch bounds poster.afterDelayed poster.segments)

variable {provider : L1Provider} {poster : BatchPoster} {bounds : L1Bounds}

theorem buildBatchBytes_open (fresh : poster.lastAfterDelayed ≠ some poster.afterDelayed)
    (resolved : resolveL1Bounds (.parse poster.parentChainBound) provider = .ok bounds) :
    buildBatchBytes provider poster =
      .ok (some (assembleBatch bounds poster.afterDelayed poster.segments))
        { poster with lastAfterDelayed := some poster.afterDelayed } := by
  simp only [buildBatchBytes, bind_read, if_neg fresh, bind_update, resolved, bind_lift_ok]
  rfl

theorem parseSegments_batchPayload (rlp : RlpRoundTrips) (brotli : BrotliRoundTrips)
    (segments : List Bytes) :
    parseSegments (batchPayload segments) = .ok (segments.take (segmentCap + 1)) := by
  rw [batchPayload, parseSegments, if_pos rfl, brotli]
  simp only [decodeSegments_take rlp]

/-- The decoder stops at its cap. -/
theorem parse_assembleBatch_take (rlp : RlpRoundTrips) (brotli : BrotliRoundTrips) (bounds : L1Bounds)
    (afterDelayed : UInt64) (segments : List Bytes) :
    parseSequencerMessage (assembleBatch bounds afterDelayed segments) = .ok ⟨bounds.minTs, bounds.maxTs,
      bounds.minBlock, bounds.maxBlock, afterDelayed.toNat, segments.take (segmentCap + 1)⟩ := by
  have header := parseSequencerMessage_batchHeader
    ⟨bounds.minTs, bounds.maxTs, bounds.minBlock, bounds.maxBlock⟩ afterDelayed.toNat_lt
    (batchPayload segments)
  rw [parseSegments_batchPayload rlp brotli] at header
  exact header

theorem parse_assembleBatch (rlp : RlpRoundTrips) (brotli : BrotliRoundTrips) (bounds : L1Bounds)
    (afterDelayed : UInt64) {segments : List Bytes} (fits : segments.length ≤ segmentCap + 1) :
    parseSequencerMessage (assembleBatch bounds afterDelayed segments) = .ok ⟨bounds.minTs, bounds.maxTs,
      bounds.minBlock, bounds.maxBlock, afterDelayed.toNat, segments⟩ := by
  rw [parse_assembleBatch_take rlp brotli, List.take_of_length_le fits]

/-- The parser reads back the bounds, the delayed count and the segments of whatever
the poster assembles and builds. -/
theorem built_batch_parses (rlp : RlpRoundTrips) (brotli : BrotliRoundTrips) :
    (∀ (bounds : L1Bounds) (afterDelayed : UInt64) (segments : List Bytes),
      segments.length ≤ segmentCap + 1 →
      parseSequencerMessage (assembleBatch bounds afterDelayed segments) = .ok ⟨bounds.minTs,
        bounds.maxTs, bounds.minBlock, bounds.maxBlock, afterDelayed.toNat, segments⟩) ∧
    ∀ (provider : L1Provider) (poster : BatchPoster) (bounds : L1Bounds),
      resolveL1Bounds (.parse poster.parentChainBound) provider = .ok bounds →
      poster.lastAfterDelayed ≠ some poster.afterDelayed →
      poster.segments.length ≤ segmentCap + 1 →
      ∃ out poster', buildBatchBytes provider poster = .ok (some out) poster' ∧
        parseSequencerMessage out = .ok ⟨bounds.minTs, bounds.maxTs, bounds.minBlock,
          bounds.maxBlock, poster.afterDelayed.toNat, poster.segments⟩ := by
  refine ⟨fun bounds afterDelayed segments fits => parse_assembleBatch rlp brotli bounds afterDelayed fits,
    fun provider poster bounds resolved fresh fits => ?_⟩
  exact ⟨_, _, buildBatchBytes_open fresh resolved, parse_assembleBatch rlp brotli bounds _ fits⟩

end

section Samples
open Codecs

/-- Two segments, one of them empty. -/
theorem two_segments_parse : parseSequencerMessage (assembleBatch ⟨1, 2, 3, 4⟩ 5 [[], [0, 7]]) =
    .ok ⟨1, 2, 3, 4, 5, [[], [0, 7]]⟩ :=
  (built_batch_parses Codecs.rlp Codecs.brotli).1 ⟨1, 2, 3, 4⟩ 5 [[], [0, 7]] (by decide)

end Samples
end BatchPoster
end NitroRs
