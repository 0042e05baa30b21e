import NitroRs.Poster.Payloads

/-! The poster on the node's source, call after call: which calls post the next
message. A call is turned away when the delayed count has not changed, and a message
that is larger than the budget stops the source for good. -/
namespace NitroRs
open TransactionStreamer

namespace NodeSegmentSource
variable {db : Db} {src : NodeSegmentSource} {m : MessageWithMetadata}

theorem getHeadMessageIndex_of_dense (dense : Dense db) {idx : Nat} (stored : db.get .message idx = some m) :
    ∃ headIdx, getHeadMessageIndex db = .ok headIdx ∧ idx ≤ headIdx := by
  have inside : idx < messageCountOrZero db := (dense.message idx).mp (by rw [KeyValue.Store.has, stored]; rfl)
  unfold messageCountOrZero at inside
  cases counted : db.count .messageCount with
  | none =>
    rw [counted] at inside
    exact absurd inside (Nat.not_lt_zero _)
  | some count =>
    rw [counted, Option.getD_some] at inside
    refine ⟨count - 1, ?_, by omega⟩
    have nonzero : count ≠ 0 := by omega
    simp only [getHeadMessageIndex, getMessageCount, Db.readCount, counted, bind, Except.bind,
      if_neg nonzero]
    rfl

/-- The segments start with the next message, or there are none where it exceeds the budget. -/
theorem nextSegments_next (dense : Dense db) (stored : db.get .message (src.lastPostedMsgIdx + 1) = some m) :
    (src.nextSegments db src.maxBytes).1 = [] ∧ src.maxBytes < (payload m).length ∨
    (payload m).length ≤ src.maxBytes ∧ ∃ rest, (src.nextSegments db src.maxBytes).1 = payload m :: rest := by
  obtain ⟨headIdx, head, inside⟩ := getHeadMessageIndex_of_dense dense stored
  have budget : (if src.maxBytes = 0 then src.maxBytes else src.maxBytes) = src.maxBytes := ite_self _
  obtain ⟨left, more⟩ : ∃ left, headIdx + 1 - (src.lastPostedMsgIdx + 1) = left + 1 :=
    ⟨headIdx - src.lastPostedMsgIdx - 1, by omega⟩
  simp only [nextSegments, head, if_neg (Nat.not_lt.mpr inside), budget, more, takeSegments,
    getMessageWithMetadataAndBlockInfo_of_stored stored, Nat.zero_add]
  by_cases full : src.maxBytes < m.message.l2msg.length
  · exact .inl ⟨by rw [if_pos full], full⟩
  · exact .inr ⟨Nat.not_lt.mp full, _, by rw [if_neg full]; rfl⟩

theorem nextSegments_maxBytes (db : Db) (maxBytes : Nat) (src : NodeSegmentSource) :
    (src.nextSegments db maxBytes).2.maxBytes = src.maxBytes := by
  unfold nextSegments
  cases getHeadMessageIndex db with
  | error e => rfl
  | ok headIdx =>
    dsimp only
    split
    · rfl
    · generalize takeSegments db _ _ _ _ _ = taken
      split <;> rfl

end NodeSegmentSource

structure NodePoster where
  poster : BatchPoster
  source : NodeSegmentSource

namespace NodePoster

/-- A new poster on a source. -/
def new (parentChainBound : String) (source : NodeSegmentSource) : NodePoster :=
  ⟨⟨parentChainBound, none, none, none⟩, source⟩

/-- The poster at a call: the delayed count is what the function gives now, and the
source stands at its cursor. -/
def wired (db : Db) (delayedCount : UInt64) (state : NodePoster) : BatchPoster :=
  { state.poster with
    delayedCountFn := some delayedCount
    segmentSource := some
      ⟨state.source.maxBytes, fun maxBytes => (state.source.nextSegments db maxBytes).1⟩ }

/-- The builder asks the source, which then moves its cursor, as the last thing before it
assembles a batch. -/
def buildBatchBytes [Externals] (db : Db) (delayedCount : UInt64) (provider : L1Provider) :
    EStateM Error NodePoster (Option Bytes) := fun state =>
  match BatchPoster.buildBatchBytes provider (state.wired db delayedCount) with
  | .ok (some out) poster =>
    .ok (some out) ⟨poster, (state.source.nextSegments db state.source.maxBytes).2⟩
  | .ok none poster => .ok none ⟨poster, state.source⟩
  | .error e poster => .error e ⟨poster, state.source⟩

section
variable [Externals]

/-- The states after successful calls, each on the store and the L1 node of its time, and
the delayed counts of these calls, the latest one first. -/
inductive Built (start : NodePoster) : List UInt64 → NodePoster → Prop
  | start : Built start [] start
  | call {counts : List UInt64} {state state' : NodePoster} {db : Db} {delayedCount : UInt64}
      {provider : L1Provider} {result : Option Bytes} (built : Built start counts state)
      (done : buildBatchBytes db delayedCount provider state = .ok result state') :
      Built start (delayedCount :: counts) state'

/-- The call returns a batch that holds the payload of the message. -/
def Posts (db : Db) (delayedCount : UInt64) (provider : L1Provider) (state : NodePoster)
    (m : MessageWithMetadata) : Prop :=
  ∃ out state' parsed, buildBatchBytes db delayedCount provider state = .ok (some out) state' ∧
    parseSequencerMessage out = .ok parsed ∧ payload m ∈ parsed.segments

variable {db : Db} {delayedCount : UInt64} {provider : L1Provider} {state : NodePoster} {bounds : L1Bounds}
  {m : MessageWithMetadata}

theorem buildBatchBytes_same (same : state.poster.lastAfterDelayed = some delayedCount) :
    buildBatchBytes db delayedCount provider state =
      .ok none ⟨state.wired db delayedCount, state.source⟩ := by
  have gate : (state.wired db delayedCount).lastAfterDelayed = some (state.wired db delayedCount).afterDelayed :=
    same
  simp only [buildBatchBytes, BatchPoster.buildBatchBytes, Outcome.bind_read, if_pos gate]
  rfl

variable (db) in
theorem buildBatchBytes_fresh (fresh : state.poster.lastAfterDelayed ≠ some delayedCount)
    (resolved : BatchPoster.resolveL1Bounds (.parse state.poster.parentChainBound) provider = .ok bounds) :
    buildBatchBytes db delayedCount provider state =
      .ok (some (BatchPoster.assembleBatch bounds delayedCount
          (state.source.nextSegments db state.source.maxBytes).1))
        ⟨{ state.wired db delayedCount with lastAfterDelayed := some delayedCount },
          (state.source.nextSegments db state.source.maxBytes).2⟩ := by
  have opened : BatchPoster.buildBatchBytes provider (state.wired db delayedCount) = .ok _ _ :=
    BatchPoster.buildBatchBytes_open fresh resolved
  simp only [buildBatchBytes, opened]
  rfl

theorem buildBatchBytes_unresolved {e : Error} (fresh : state.poster.lastAfterDelayed ≠ some delayedCount)
    (failed : BatchPoster.resolveL1Bounds (.parse state.poster.parentChainBound) provider = .error e) :
    buildBatchBytes db delayedCount provider state =
      .error e ⟨{ state.wired db delayedCount with lastAfterDelayed := some delayedCount }, state.source⟩ := by
  have gate : (state.wired db delayedCount).lastAfterDelayed ≠
      some (state.wired db delayedCount).afterDelayed := fresh
  have unresolved : BatchPoster.resolveL1Bounds
      (.parse (state.wired db delayedCount).parentChainBound) provider = .error e := failed
  simp only [buildBatchBytes, BatchPoster.buildBatchBytes, Outcome.bind_read, if_neg gate,
    Outcome.bind_update, unresolved, Outcome.bind_lift_error]
  rfl

/-- A successful call leaves its delayed count as the last one used, whether or not it
built a batch. -/
theorem buildBatchBytes_ok {result : Option Bytes} {state' : NodePoster}
    (done : buildBatchBytes db delayedCount provider state = .ok result state') :
    state'.poster.lastAfterDelayed = some delayedCount ∧
    state'.poster.parentChainBound = state.poster.parentChainBound ∧
    state'.source.maxBytes = state.source.maxBytes := by
  have budget : (state.source.nextSegments db state.source.maxBytes).2.maxBytes = state.source.maxBytes :=
    NodeSegmentSource.nextSegments_maxBytes ..
  by_cases same : state.poster.lastAfterDelayed = some delayedCount
  · rw [buildBatchBytes_same same] at done
    cases done
    exact ⟨same, rfl, rfl⟩
  · cases resolved : BatchPoster.resolveL1Bounds (.parse state.poster.parentChainBound) provider with
    | ok bounds =>
      rw [buildBatchBytes_fresh db same resolved] at done
      cases done
      exact ⟨rfl, rfl, budget⟩
    | error e =>
      rw [buildBatchBytes_unresolved same resolved] at done
      cases done

theorem Built.last_count {parentChainBound : String} {source : NodeSegmentSource} {counts : List UInt64}
    (built : Built (new parentChainBound source) counts state) :
    state.poster.lastAfterDelayed = counts.head? ∧
    state.poster.parentChainBound = parentChainBound ∧ state.source.maxBytes = source.maxBytes := by
  induction built with
  | start => exact ⟨rfl, rfl, rfl⟩
  | call built done ih =>
    obtain ⟨last, bound, budget⟩ := buildBatchBytes_ok done
    exact ⟨last, bound.trans ih.2.1, budget.trans ih.2.2⟩

theorem posts_iff (rlp : RlpRoundTrips) (brotli : BrotliRoundTrips) (dense : Dense db)
    (unposted : db.get .message (state.source.lastPostedMsgIdx + 1) = some m)
    (resolved : BatchPoster.resolveL1Bounds (.parse state.poster.parentChainBound) provider = .ok bounds) :
    Posts db delayedCount provider state m ↔
      state.poster.lastAfterDelayed ≠ some delayedCount ∧ (payload m).length ≤ state.source.maxBytes := by
  by_cases same : state.poster.lastAfterDelayed = some delayedCount
  · refine iff_of_false ?_ fun ⟨fresh, _⟩ => fresh same
    rintro ⟨out, state', parsed, built, -, -⟩
    rw [buildBatchBytes_same same] at built
    cases built
  · have built := buildBatchBytes_fresh db same resolved
    have parsed := BatchPoster.parse_assembleBatch_take rlp brotli bounds delayedCount
      (state.source.nextSegments db state.source.maxBytes).1
    rcases NodeSegmentSource.nextSegments_next dense unposted with ⟨none, full⟩ | ⟨fits, rest, first⟩
    · refine iff_of_false ?_ fun ⟨_, fits⟩ => Nat.not_lt.mpr fits full
      rintro ⟨out, state', parsed', built', parsesTo, member⟩
      rw [built] at built'
      cases built'
      rw [parsed, none] at parsesTo
      cases parsesTo
      exact List.not_mem_nil member
    · refine iff_of_true ⟨_, _, _, built, parsed, ?_⟩ ⟨same, fits⟩
      rw [first]
      exact List.mem_cons_self

/-- Behind any successful calls the next message is posted exactly by a call that sees a
delayed count other than the latest one, and only if it fits the budget on its own. -/
theorem posts_next_iff (rlp : RlpRoundTrips) (brotli : BrotliRoundTrips) {parentChainBound : String}
    {source : NodeSegmentSource} {counts : List UInt64}
    (built : Built (new parentChainBound source) counts state) (dense : Dense db)
    (unposted : db.get .message (state.source.lastPostedMsgIdx + 1) = some m)
    (resolved : BatchPoster.resolveL1Bounds (.parse parentChainBound) provider = .ok bounds) :
    Posts db delayedCount provider state m ↔
      counts.head? ≠ some delayedCount ∧ (payload m).length ≤ source.maxBytes := by
  obtain ⟨last, bound, budget⟩ := built.last_count
  rw [← bound] at resolved
  rw [posts_iff rlp brotli dense unposted resolved, last, budget]

end

section Samples
open Codecs

def l2Store : Db := payloadStore [payloadMessage [4, 1] 1, payloadMessage [4, 2] 1]

/-- The poster behind a call whose budget of two bytes took the first of two messages. -/
def firstPosted : NodePoster := Outcome.final (buildBatchBytes l2Store 1 (.error .rpc) (.new "ignore" (.new 2)))

theorem open_bounds : BatchPoster.resolveL1Bounds (.parse "ignore") (.error .rpc) = .ok BatchPoster.openBounds := by
  decide +kernel

theorem firstPosted_built : Built (.new "ignore" (.new 2)) [1] firstPosted := by
  have built : buildBatchBytes l2Store 1 (.error .rpc) (.new "ignore" (.new 2)) = .ok _ _ :=
    buildBatchBytes_fresh l2Store (by decide) open_bounds
  have last := Outcome.eq_final_of_ok built
  rw [last] at built
  exact .call .start built

/-- A deposit later the second message is posted. -/
theorem second_message_posted : Posts l2Store 2 (.error .rpc) firstPosted (payloadMessage [4, 2] 1).messageWithMeta :=
  (posts_next_iff rlp brotli firstPosted_built (payloadStore_dense _) (by decide +kernel) open_bounds).mpr
    ⟨by decide, by decide⟩

/-- No call posts the second message until a deposit arrives. -/
theorem l2_traffic_starves : ¬ ∀ (counts : List UInt64) (state : NodePoster) (db : Db)
    (delayedCount : UInt64) (provider : L1Provider) (bounds : L1Bounds) (m : MessageWithMetadata),
    Built (.new "ignore" (.new 2)) counts state → Dense db →
    db.get .message (state.source.lastPostedMsgIdx + 1) = some m →
    BatchPoster.resolveL1Bounds (.parse "ignore") provider = .ok bounds →
    Posts db delayedCount provider state m := by
  intro posts
  have next : l2Store.get .message (firstPosted.source.lastPostedMsgIdx + 1) =
      some (payloadMessage [4, 2] 1).messageWithMeta := by decide +kernel
  obtain ⟨out, state', parsed, second, -⟩ := posts [1] firstPosted l2Store 1 (.error .rpc) _ _ firstPosted_built
    (payloadStore_dense _) next open_bounds
  rw [buildBatchBytes_same (by decide +kernel)] at second
  cases second

end Samples

end NodePoster
end NitroRs
