import NitroRs.Lib.Budget
import NitroRs.Poster.Starvation

/-! What the node's source hands out over a run of appends and calls: the payloads behind the
init message, each once and in order, as many a call as fit. -/
namespace NitroRs
open TransactionStreamer KeyValue Outcome Budget

/-- The messages of a store, by their indices. -/
def messages (db : Db) : List MessageWithMetadata := storedMessages db 0 (messageCountOrZero db)

section
variable {db : Db}

theorem storedMessages_getElem? {first count : Nat}
    (stored : ∀ i, first ≤ i → i < first + count → db.has .message i) (i : Nat) :
    (storedMessages db first count)[i]? = if i < count then db.get .message (first + i) else none := by
  induction count generalizing first i with
  | zero => rfl
  | succ count ih =>
    obtain ⟨m, here⟩ := Option.isSome_iff_exists.mp (stored first le_rfl (by omega))
    rw [storedMessages, List.range'_succ, List.filterMap_cons_some here]
    cases i with
    | zero => rw [List.getElem?_cons_zero, if_pos (Nat.succ_pos count), Nat.add_zero, here]
    | succ i =>
      have later := @ih (first + 1) (fun j above below => stored j (by omega) (by omega)) i
      rw [storedMessages] at later
      rw [List.getElem?_cons_succ, later]
      simp only [Nat.add_lt_add_iff_right, Nat.add_assoc, Nat.add_comm 1 i]

theorem messages_getElem? (dense : Dense db) (i : Nat) : (messages db)[i]? = db.get .message i := by
  rw [messages, storedMessages_getElem? fun i _ below => (dense.message i).mpr (by omega), Nat.zero_add]
  split
  · rfl
  · rename_i past
    exact (dense.nothingPast i (not_lt.mp past)).symm

theorem messages_length (dense : Dense db) : (messages db).length = messageCountOrZero db := by
  refine eq_of_forall_lt_iff fun i => ?_
  rw [← dense.message, Store.has, ← messages_getElem? dense, Option.isSome_iff_exists]
  constructor
  · intro inside
    exact ⟨_, List.getElem?_eq_getElem inside⟩
  · rintro ⟨_, here⟩
    exact (List.getElem?_eq_some_iff.mp here).1

/-- An append leaves the messages that are stored and may add some behind them. -/
theorem messages_append (dense : Dense db) (first : Nat) (confirmed : Bool)
    (ms : List MessageWithMetadataAndBlockInfo) (track : Option Nat) :
    messages db <+: messages (final (addMessagesAndEndBatchImpl first confirmed ms track db)) := by
  have dense' := StreamerOp.dense_append dense first confirmed ms track
  rcases append_cases dense.nothingPast first confirmed ms track with
    ⟨_, refused⟩ | ⟨rfl, ⟨e, _, refused⟩ | ⟨_, accepted⟩⟩
  · rw [refused]
    exact List.prefix_refl _
  · rw [refused]
    exact List.prefix_refl _
  · rw [accepted, final_ok] at dense' ⊢
    split at dense'
    · rename_i none
      simp only [if_pos none, List.prefix_refl]
    · rename_i some
      rw [if_neg some]
      refine List.prefix_iff_getElem?.mpr fun i inside => ?_
      have old : i < messageCountOrZero db := messages_length dense ▸ inside
      rw [messages_getElem? dense', (dense.replaced_append ms track).get .message (by simp),
        if_neg (by omega), ← messages_getElem? dense, List.getElem?_eq_getElem inside]

end

namespace NodeSegmentSource
variable {db : Db} {src : NodeSegmentSource}

/-- The size of a segment. -/
def payloadSize (m : MessageWithMetadata) : Nat := (payload m).length

/-- The loop takes messages off the front while they fit. -/
theorem takeSegments_within (dense : Dense db) {budget left idx used lastTaken room : Nat}
    (follows : idx = lastTaken + 1) (split : used + room = budget) :
    takeSegments db budget left idx used lastTaken =
      ((within payloadSize room (((messages db).drop idx).take left)).map payload,
        lastTaken + (within payloadSize room (((messages db).drop idx).take left)).length) := by
  induction left generalizing idx used lastTaken room with
  | zero => rfl
  | succ left ih =>
    unfold takeSegments
    cases stored : db.get .message idx with
    | none =>
      rw [← messages_getElem? dense] at stored
      rw [List.drop_eq_nil_of_le (List.getElem?_eq_none_iff.mp stored), List.take_nil, within]
      rw [messages_getElem? dense] at stored
      simp only [getMessageWithMetadataAndBlockInfo, getMessage, stored]
      rfl
    | some m =>
      simp only [getMessageWithMetadataAndBlockInfo_of_stored stored]
      rw [← messages_getElem? dense] at stored
      obtain ⟨inside, here⟩ := List.getElem?_eq_some_iff.mp stored
      rw [List.drop_eq_getElem_cons inside, here, List.take_succ_cons, within]
      by_cases full : budget < used + m.message.l2msg.length
      · rw [if_pos full, if_pos (show room < payloadSize m by unfold payloadSize payload; omega)]
        rfl
      · have fits : ¬ room < payloadSize m := by
          unfold payloadSize payload
          omega
        rw [if_neg full, if_neg fits, ih rfl (show _ + (room - payloadSize m) = budget by
          unfold payloadSize payload at *; omega)]
        simp only [List.map_cons, List.length_cons, Prod.mk.injEq]
        exact ⟨rfl, by omega⟩

/-- The head is the last message, or past every message where there is none. -/
theorem getHeadMessageIndex_messages (dense : Dense db) :
    (∃ e, getHeadMessageIndex db = .error e ∧ messages db = []) ∨
      ∃ headIdx, getHeadMessageIndex db = .ok headIdx ∧ (messages db).length ≤ headIdx + 1 := by
  have length := messages_length dense
  unfold messageCountOrZero at length
  unfold getHeadMessageIndex getMessageCount Db.readCount
  cases counted : db.count .messageCount with
  | none =>
    rw [counted] at length
    exact .inl ⟨_, rfl, List.length_eq_zero_iff.mp length⟩
  | some count =>
    rw [counted, Option.getD_some] at length
    refine .inr ⟨_, rfl, ?_⟩
    split <;> omega

/-- The budget of a call: with none the source's own maximum. -/
def effectiveBudget (src : NodeSegmentSource) (maxBytes : Nat) : Nat :=
  if maxBytes = 0 then src.maxBytes else maxBytes

/-- A call hands out the longest run behind the cursor within its budget and moves past it. -/
theorem nextSegments_longest (dense : Dense db) (src : NodeSegmentSource) (maxBytes : Nat) :
    ∃ taken, Longest payloadSize (src.effectiveBudget maxBytes) taken
        ((messages db).drop (src.lastPostedMsgIdx + 1)) ∧
      src.nextSegments db maxBytes =
        (taken.map payload, { src with lastPostedMsgIdx := src.lastPostedMsgIdx + taken.length }) := by
  refine ⟨_, within_longest (src.effectiveBudget maxBytes) _, ?_⟩
  have nothing (none : (messages db).drop (src.lastPostedMsgIdx + 1) = []) :
      ([], src) = ((within payloadSize (src.effectiveBudget maxBytes)
        ((messages db).drop (src.lastPostedMsgIdx + 1))).map payload,
          { src with lastPostedMsgIdx := src.lastPostedMsgIdx + (within payloadSize
            (src.effectiveBudget maxBytes) ((messages db).drop (src.lastPostedMsgIdx + 1))).length }) := by
    rw [none]
    rfl
  unfold nextSegments
  rcases getHeadMessageIndex_messages dense with ⟨e, failed, empty⟩ | ⟨headIdx, head, inside⟩
  · rw [failed]
    exact nothing (by rw [empty, List.drop_nil])
  · rw [head]
    dsimp only
    rw [← effectiveBudget]
    split
    · exact nothing (List.drop_eq_nil_of_le (by omega))
    · have all : ((messages db).drop (src.lastPostedMsgIdx + 1)).take
          (headIdx + 1 - (src.lastPostedMsgIdx + 1)) = (messages db).drop (src.lastPostedMsgIdx + 1) :=
        List.take_of_length_le (by rw [List.length_drop]; omega)
      rw [takeSegments_within dense (by omega) (Nat.zero_add _), all]
      simp only [Nat.add_sub_cancel]
      split
      · rfl
      · rename_i still
        have none : (within payloadSize (src.effectiveBudget maxBytes)
            ((messages db).drop (src.lastPostedMsgIdx + 1))).length = 0 := by omega
        rw [none]
        rfl

end NodeSegmentSource

/-- A store and a source of its segments, with what the source has handed out. -/
structure SegmentFeed where
  db : Db
  source : NodeSegmentSource
  handedOut : List Bytes

inductive FeedEvent where
  | append (first : Nat) (confirmed : Bool) (messages : List MessageWithMetadataAndBlockInfo) (track : Option Nat)
  | next (maxBytes : Nat)

namespace SegmentFeed

def start (db : Db) (maxBytes : Nat) : SegmentFeed := ⟨db, .new maxBytes, []⟩

def step (feed : SegmentFeed) : FeedEvent → SegmentFeed
  | .append first confirmed messages track =>
    { feed with db := final (addMessagesAndEndBatchImpl first confirmed messages track feed.db) }
  | .next maxBytes =>
    let (segments, source) := feed.source.nextSegments feed.db maxBytes
    { feed with source, handedOut := feed.handedOut ++ segments }

def run (feed : SegmentFeed) (events : List FeedEvent) : SegmentFeed := events.foldl step feed

/-- What has been handed out are the payloads up to the cursor, which is a stored message. -/
structure Tracks (maxBytes : Nat) (feed : SegmentFeed) : Prop where
  dense : Dense feed.db
  budget : feed.source.maxBytes = maxBytes
  cursor : feed.source.lastPostedMsgIdx ≤ (messages feed.db).length - 1
  handedOut : feed.handedOut = (((messages feed.db).drop 1).take feed.source.lastPostedMsgIdx).map payload

theorem Tracks.step {maxBytes : Nat} {feed : SegmentFeed} (tracks : Tracks maxBytes feed) (event : FeedEvent) :
    Tracks maxBytes (feed.step event) := by
  obtain ⟨dense, budget, cursor, handedOut⟩ := tracks
  cases event with
  | append first confirmed ms track =>
    obtain ⟨more, longer⟩ := messages_append dense first confirmed ms track
    refine ⟨StreamerOp.dense_append dense first confirmed ms track, budget, ?_, ?_⟩
    · simp only [SegmentFeed.step, ← longer, List.length_append]
      omega
    · simp only [SegmentFeed.step, ← longer, handedOut]
      by_cases none : messages feed.db = []
      · rw [none] at cursor
        rw [Nat.le_zero.mp cursor]
        rfl
      · have some := List.length_pos_iff.mpr none
        rw [List.drop_append_of_le_length (by omega), List.take_append_of_le_length (by rwa [List.length_drop])]
  | next request =>
    obtain ⟨taken, ⟨front, _, _⟩, same⟩ := feed.source.nextSegments_longest dense request
    have reach := front.length_le
    rw [List.length_drop] at reach
    simp only [SegmentFeed.step, same]
    refine ⟨dense, budget, ?_, ?_⟩
    · simp only
      omega
    · simp only
      rw [handedOut, ← List.map_append, List.take_add, List.drop_drop, Nat.add_comm 1,
        ← List.prefix_iff_eq_take.mp front]

theorem Tracks.run {maxBytes : Nat} {feed : SegmentFeed} (tracks : Tracks maxBytes feed) (events : List FeedEvent) :
    Tracks maxBytes (feed.run events) := by
  induction events generalizing feed with
  | nil => exact tracks
  | cons event events ih => exact ih (tracks.step event)

theorem start_tracks {db : Db} (empty : EmptyStore db) (maxBytes : Nat) : Tracks maxBytes (start db maxBytes) :=
  ⟨empty.dense, rfl, Nat.zero_le _, rfl⟩

end SegmentFeed

/-- After any run of appends and calls, what was handed out are the payloads of messages 1 up to
the cursor, in order, and a call hands out the longest run behind them within its budget. -/
theorem segments_handed_out_once {db : Db} (empty : EmptyStore db) {maxBytes : Nat} {events : List FeedEvent}
    {feed : SegmentFeed} (reached : (SegmentFeed.start db maxBytes).run events = feed) :
    (∀ i, (messages feed.db)[i]? = feed.db.get .message i) ∧
    feed.source.lastPostedMsgIdx ≤ (messages feed.db).length - 1 ∧
    feed.handedOut = (((messages feed.db).drop 1).take feed.source.lastPostedMsgIdx).map payload ∧
    ∀ request, ∃ taken, Longest NodeSegmentSource.payloadSize (if request = 0 then maxBytes else request) taken
        ((messages feed.db).drop (feed.source.lastPostedMsgIdx + 1)) ∧
      feed.source.nextSegments feed.db request = (taken.map payload,
        { feed.source with lastPostedMsgIdx := feed.source.lastPostedMsgIdx + taken.length }) := by
  obtain ⟨dense, budget, cursor, handedOut⟩ :=
    reached ▸ (SegmentFeed.start_tracks empty maxBytes).run events
  refine ⟨messages_getElem? dense, cursor, handedOut, fun request => ?_⟩
  rw [← budget]
  exact feed.source.nextSegments_longest dense request

section Samples

/-- The init message and one more, handed out before two more are appended. -/
def postedEvents : List FeedEvent :=
  [.append 0 false [payloadMessage [] 1, payloadMessage [7, 8] 1] none, .next 2,
    .append 2 true [payloadMessage [9] 1, payloadMessage [] 1] none, .next 0]

theorem postedEvents_handed_out : ((SegmentFeed.start .empty 10).run postedEvents).handedOut = [[7, 8], [9], []] := by
  obtain ⟨_, _, handedOut, _⟩ := segments_handed_out_once ⟨rfl, fun _ _ _ => rfl⟩
    (rfl : (SegmentFeed.start .empty 10).run postedEvents = _)
  rw [handedOut]
  decide +kernel

end Samples
end NitroRs
