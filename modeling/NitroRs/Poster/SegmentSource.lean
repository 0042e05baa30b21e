import NitroRs.Inbox.Emission
import NitroRs.Inbox.Answers
import NitroRs.Poster.BatchPoster
import NitroRs.Streamer.Density

/-! The node's source of segments: it hands the payloads of the stored messages to the
poster, one segment each. The multiplexer takes the first byte of a segment for its
kind, so that a payload comes back only where it happens to spell its own message. -/
namespace NitroRs
open TransactionStreamer

structure NodeSegmentSource where
  lastPostedMsgIdx : Nat
  maxBytes : Nat
  deriving DecidableEq

namespace NodeSegmentSource

def new (maxBytes : Nat) : NodeSegmentSource := ⟨0, maxBytes⟩

/-- The loop over the indices from `idx` on: the segments within the budget and the last
index taken. -/
def takeSegments (db : Db) (budget : Nat) : (left idx used lastTaken : Nat) → List Bytes × Nat
  | 0, _, _, lastTaken => ([], lastTaken)
  | left + 1, idx, used, lastTaken =>
    match getMessageWithMetadataAndBlockInfo db idx with
    | .error _ => ([], lastTaken)
    | .ok msg =>
      let l2msg := msg.messageWithMeta.message.l2msg
      if budget < used + l2msg.length then ([], lastTaken)
      else
        let (segments, lastTaken) := takeSegments db budget left (idx + 1) (used + l2msg.length) idx
        (l2msg :: segments, lastTaken)

def nextSegments (db : Db) (maxBytes : Nat) (src : NodeSegmentSource) : List Bytes × NodeSegmentSource :=
  let budget := if maxBytes = 0 then src.maxBytes else maxBytes
  let startIdx := src.lastPostedMsgIdx + 1
  match getHeadMessageIndex db with
  | .error _ => ([], src)
  | .ok headIdx =>
    if headIdx < startIdx then ([], src)
    else
      let (segments, lastTaken) :=
        takeSegments db budget (headIdx + 1 - startIdx) startIdx 0 (startIdx - 1)
      (segments, if startIdx ≤ lastTaken then { src with lastPostedMsgIdx := lastTaken } else src)

end NodeSegmentSource

/-- The stored messages at `count` indices from `first` on. -/
def storedMessages (db : Db) (first count : Nat) : List MessageWithMetadata :=
  (List.range' first count).filterMap (db.get .message)

def payload (m : MessageWithMetadata) : Bytes := m.message.l2msg

namespace NodeSegmentSource
/-- The messages that a call has covered. -/
def covered (db : Db) (src src' : NodeSegmentSource) : List MessageWithMetadata :=
  storedMessages db (src.lastPostedMsgIdx + 1) (src'.lastPostedMsgIdx - src.lastPostedMsgIdx)

theorem getMessageWithMetadataAndBlockInfo_of_stored {db : Db} {idx : Nat} {m : MessageWithMetadata}
    (stored : db.get .message idx = some m) : getMessageWithMetadataAndBlockInfo db idx =
      .ok ⟨m, blockHashAtMessageIndex db idx, blockMetadataAtMessageIndex db idx⟩ := by
  simp only [getMessageWithMetadataAndBlockInfo, getMessage, stored]
  rfl

theorem takeSegments_spec (db : Db) (budget left idx used lastTaken : Nat) (follows : idx = lastTaken + 1) :
    ∃ n, takeSegments db budget left idx used lastTaken =
      ((storedMessages db idx n).map payload, lastTaken + n) := by
  induction left generalizing idx used lastTaken with
  | zero => exact ⟨0, rfl⟩
  | succ left ih =>
    unfold takeSegments
    cases stored : db.get .message idx with
    | none =>
      refine ⟨0, ?_⟩
      simp only [getMessageWithMetadataAndBlockInfo, getMessage, stored]
      rfl
    | some m =>
      simp only [getMessageWithMetadataAndBlockInfo_of_stored stored]
      by_cases full : budget < used + m.message.l2msg.length
      · exact ⟨0, by rw [if_pos full]; rfl⟩
      · obtain ⟨n, taken⟩ := ih (idx + 1) (used + m.message.l2msg.length) idx rfl
        refine ⟨n + 1, ?_⟩
        simp only [if_neg full, taken, storedMessages, List.range'_succ, List.filterMap_cons, stored,
          List.map_cons, payload]
        rw [follows]
        congr 1
        omega

/-- The segments are the payloads of the messages that the source moves past. -/
theorem nextSegments_spec (db : Db) (maxBytes : Nat) (src : NodeSegmentSource) :
    (nextSegments db maxBytes src).1 = (covered db src (nextSegments db maxBytes src).2).map payload := by
  unfold nextSegments
  have none : covered db src src = [] := by
    rw [covered, Nat.sub_self]
    rfl
  cases getHeadMessageIndex db with
  | error e => simp only [none, List.map_nil]
  | ok headIdx =>
    dsimp only
    split
    · simp only [none, List.map_nil]
    · obtain ⟨n, taken⟩ := takeSegments_spec db
        (if maxBytes = 0 then src.maxBytes else maxBytes) (headIdx + 1 - (src.lastPostedMsgIdx + 1))
        (src.lastPostedMsgIdx + 1) 0 src.lastPostedMsgIdx rfl
      simp only [Nat.add_sub_cancel, taken]
      split
      · simp only [covered, Nat.add_sub_cancel_left]
      · rename_i still
        have zero : n = 0 := by omega
        simp only [none, zero, storedMessages, List.range'_zero, List.filterMap_nil, List.map_nil]

end NodeSegmentSource
end NitroRs
