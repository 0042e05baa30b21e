import NitroRs.Inbox.Feed

/-! The answers of the `pop`s of one batch, read off its segments: messages,
errors that a later `pop` passes over, and the empty answers of unknown segments. -/
namespace NitroRs

/-- What one `pop` answers; a panic counts as an error. -/
abbrev Answer := Except Error (Option MessageWithMetadataAndBlockInfo)

def isMessage : Answer → Bool
  | .ok (some _) => true
  | _ => false

/-- The messages of the first `n` pops, whatever the others answer. -/
def InboxMultiplexer.messages [Externals] :
    Nat → InboxMultiplexer → List MessageWithMetadataAndBlockInfo
  | 0, _ => []
  | n + 1, mux =>
    match mux.pop with
    | .ok (some m) mux => m :: messages n mux
    | .ok none mux | .error _ mux => messages n mux

def Feed.messages [Externals] (readDelayedInbox : Nat → Except Error L1IncomingMessage) :
    Nat → Feed → List MessageWithMetadataAndBlockInfo
  | 0, _ => []
  | n + 1, feed =>
    match feed.pop readDelayedInbox with
    | .ok (some m) feed => m :: messages readDelayedInbox n feed
    | .ok none feed | .error _ feed => messages readDelayedInbox n feed

namespace Answers

/-- Delayed messages from `read` on; a missing one is asked for again and again. -/
def pending (readDelayedInbox : Nat → Except Error L1IncomingMessage) : Nat → Nat → List Answer
  | 0, _ => []
  | n + 1, read =>
    match readDelayedInbox read with
    | .error e => [.error e]
    | .ok delayed =>
      .ok (some ⟨⟨delayed, read + 1⟩, none, none⟩) :: pending readDelayedInbox n (read + 1)

/-- The answers for the segments from left to right, then for the pending delayed
messages. Nothing comes after a panic. -/
def segments [Externals] (seq : SequencerMessage) (hash : Option B256)
    (readDelayedInbox : Nat → Except Error L1IncomingMessage) :
    List Bytes → UInt64 → UInt64 → Nat → List Answer
  | [], _, _, read => pending readDelayedInbox (seq.afterDelayedMessages - read) read
  | [] :: rest, timestamp, blockNumber, read =>
      segments seq hash readDelayedInbox rest timestamp blockNumber read
  | (kind :: body) :: rest, timestamp, blockNumber, read =>
      if kind = batchSegmentKindAdvanceTimestamp then
        segments seq hash readDelayedInbox rest (advanceBy timestamp body) blockNumber read
      else if kind = batchSegmentKindAdvanceL1BlockNumber then
        segments seq hash readDelayedInbox rest timestamp (advanceBy blockNumber body) read
      else
        match segmentMessage seq hash readDelayedInbox timestamp blockNumber read (kind :: body) with
        | .error panic => [.error panic]
        | .ok (answer, read) =>
          answer :: segments seq hash readDelayedInbox rest timestamp blockNumber read

/-- A batch without submessages and pending delayed messages answers once. -/
def batch [Externals] (seq : SequencerMessage) (hash : Option B256)
    (readDelayedInbox : Nat → Except Error L1IncomingMessage) (read : Nat) : List Answer :=
  if seq.afterDelayedMessages ≤ read ∧ seq.segments.any isSubmessage = false then
    [.ok (some ⟨⟨invalidMessage seq, seq.afterDelayedMessages⟩, hash, none⟩)]
  else segments seq hash readDelayedInbox seq.segments 0 0 read

def ofFeed [Externals] (readDelayedInbox : Nat → Except Error L1IncomingMessage) :
    Feed → List Answer
  | .between [] _ => []
  | .between (b :: _) read =>
    match parseSequencerMessage b.serialized with
    | .error e => [.error e]
    | .ok seq => batch seq (some b.blockHash) readDelayedInbox read
  | .within b _ seq walk => segments seq (some b.blockHash) readDelayedInbox walk.rest
      walk.timestamp walk.blockNumber walk.delayedRead

/-- A feed of at most one batch that has an answer to give while within it. -/
def Live : Feed → Prop
  | .between batches _ => batches.length ≤ 1
  | .within _ later seq walk => later = [] ∧
      (walk.delayedRead < seq.afterDelayedMessages ∨ walk.rest.any isSubmessage = true)

variable [Externals] {seq : SequencerMessage} {hash : Option B256}
  {readDelayedInbox : Nat → Except Error L1IncomingMessage}

theorem segments_skip (seq : SequencerMessage) (hash : Option B256)
    (readDelayedInbox : Nat → Except Error L1IncomingMessage) (rest : List Bytes)
    (ts bn : UInt64) (read : Nat) :
    segments seq hash readDelayedInbox (Walk.skip read rest ts bn).rest
        (Walk.skip read rest ts bn).timestamp (Walk.skip read rest ts bn).blockNumber read =
      segments seq hash readDelayedInbox rest ts bn read :=
  Walk.skip_invariant (fun rest ts bn => segments seq hash readDelayedInbox rest ts bn read)
    (fun _ _ _ => rfl) (fun _ _ _ _ => rfl) (fun _ _ _ _ => rfl) read rest ts bn

/-- Skipping passes over no submessage. -/
theorem skip_any (read : Nat) (rest : List Bytes) (ts bn : UInt64) :
    (Walk.skip read rest ts bn).rest.any isSubmessage = rest.any isSubmessage :=
  Walk.skip_invariant (fun rest _ _ => rest.any isSubmessage) (fun _ _ _ => rfl) (fun _ _ _ _ => rfl)
    (fun _ _ _ _ => rfl) read rest ts bn

omit [Externals] in
/-- A segment that keeps the batch open is a submessage. -/
theorem isSubmessage_of_keepsOpen {seg : Bytes} (opens : keepsOpen seg = true) :
    isSubmessage seg = true := by
  cases seg with
  | nil => contradiction
  | cons kind body =>
    simp only [keepsOpen, Bool.or_eq_true, decide_eq_true_eq] at opens
    rcases opens with (rfl | rfl) | rfl <;> rfl

/-- A segment that is no submessage only moves the time and the block. -/
theorem segments_skipped {seg : Bytes} (rest : List Bytes) (ts bn : UInt64) (read : Nat)
    (skipped : isSubmessage seg = false) : ∃ ts' bn',
      segments seq hash readDelayedInbox (seg :: rest) ts bn read =
        segments seq hash readDelayedInbox rest ts' bn' read := by
  cases seg with
  | nil => exact ⟨ts, bn, rfl⟩
  | cons kind body =>
    simp only [isSubmessage, Bool.and_eq_false_iff, decide_eq_false_iff_not, not_not] at skipped
    rcases skipped with rfl | rfl
    · exact ⟨_, _, rfl⟩
    · exact ⟨_, _, rfl⟩

/-- A submessage answers in front of the rest. -/
theorem segments_submessage {seg : Bytes} {rest : List Bytes} {ts bn : UInt64} {read : Nat}
    (submessage : isSubmessage seg = true) :
    segments seq hash readDelayedInbox (seg :: rest) ts bn read =
      match segmentMessage seq hash readDelayedInbox ts bn read seg with
      | .error panic => [.error panic]
      | .ok (answer, read) => answer :: segments seq hash readDelayedInbox rest ts bn read := by
  cases seg with
  | nil => contradiction
  | cons kind body =>
    simp only [isSubmessage, Bool.and_eq_true, decide_eq_true_eq] at submessage
    simp only [segments, if_neg submessage.1, if_neg submessage.2]

/-- Once nothing keeps the batch open, only unknown segments are left. -/
theorem segments_closed {rest : List Bytes} {ts bn : UInt64} {read : Nat}
    (closed : rest.any keepsOpen = false) (drained : seq.afterDelayedMessages ≤ read) :
    ∀ answer ∈ segments seq hash readDelayedInbox rest ts bn read, answer = .ok none := by
  induction rest generalizing ts bn with
  | nil =>
    have none : seq.afterDelayedMessages - read = 0 := by omega
    simp [segments, none, pending]
  | cons seg rest ih =>
    rw [List.any_cons, Bool.or_eq_false_iff] at closed
    cases seg with
    | nil => exact ih closed.2
    | cons kind body =>
      unfold segments
      split
      · exact ih closed.2
      · split
        · exact ih closed.2
        · have silent := closed.1
          simp only [keepsOpen, Bool.or_eq_false_iff, decide_eq_false_iff_not] at silent
          have none : segmentMessage seq hash readDelayedInbox ts bn read (kind :: body) =
              .ok (.ok none, read) := by
            rw [segmentMessage, if_neg (not_or.mpr silent.1), if_neg silent.2]
          simp only [none, List.mem_cons]
          rintro answer (rfl | later)
          · rfl
          · exact ih closed.2 answer later

/-- What one `pop` takes from the answers: it moves on to the rest of them, or
closes the batch over unknown segments, or meets the same error for ever. -/
structure Step (readDelayedInbox : Nat → Except Error L1IncomingMessage) (feed : Feed)
    (answer : Answer) (rest : List Answer) (feed' : Feed) : Prop where
  popped : feed.pop readDelayedInbox = Outcome.lift answer feed'
  answers : ofFeed readDelayedInbox feed = answer :: rest
  live : Live feed'
  moved : (feed'.steps < feed.steps ∧ ofFeed readDelayedInbox feed' = rest) ∨
    (feed'.steps < feed.steps ∧ ofFeed readDelayedInbox feed' = [] ∧ ∀ a ∈ rest, a = .ok none) ∨
    ∃ e, answer = .error e ∧ rest = [] ∧ ofFeed readDelayedInbox feed' = [.error e]

/-- What is left of a batch after a segment. -/
theorem afterSegment_answers (readDelayedInbox : Nat → Except Error L1IncomingMessage)
    (b : SequencerInboxBatch) (seq : SequencerMessage) (walk : Walk) :
    Live (Feed.afterSegment b [] seq walk) ∧
      ((ofFeed readDelayedInbox (Feed.afterSegment b [] seq walk) =
          segments seq (some b.blockHash) readDelayedInbox walk.rest walk.timestamp walk.blockNumber
            walk.delayedRead) ∨
        (ofFeed readDelayedInbox (Feed.afterSegment b [] seq walk) = [] ∧
          ∀ a ∈ segments seq (some b.blockHash) readDelayedInbox walk.rest walk.timestamp
            walk.blockNumber walk.delayedRead, a = .ok none)) := by
  unfold Feed.afterSegment
  cases finished : walk.finished seq with
  | true =>
    obtain ⟨drained, closed⟩ := Walk.finished_iff.mp finished
    exact ⟨Nat.zero_le _, .inr ⟨rfl, segments_closed closed drained⟩⟩
  | false =>
    refine ⟨⟨rfl, ?_⟩, .inl rfl⟩
    by_contra idle
    obtain ⟨drained, silent⟩ := not_or.mp idle
    have closed : walk.finished seq = true := by
      rw [Walk.finished_iff]
      refine ⟨not_lt.mp drained, ?_⟩
      rw [Bool.not_eq_true, List.any_eq_false] at silent
      rw [List.any_eq_false]
      exact fun seg member opens => silent seg member (isSubmessage_of_keepsOpen opens)
    rw [closed] at finished
    contradiction

/-- A segment that is read and does not have to be read again. -/
theorem step_of_emitted {b : SequencerInboxBatch} {walk : Walk} {answer : Answer} {read : Nat}
    (emitted : segmentMessage seq (some b.blockHash) readDelayedInbox walk.skipped.timestamp
      walk.skipped.blockNumber walk.delayedRead walk.skipped.segment = .ok (answer, read))
    (answers : ofFeed readDelayedInbox (.within b [] seq walk) = answer ::
      segments seq (some b.blockHash) readDelayedInbox walk.skipped.rest.tail
        walk.skipped.timestamp walk.skipped.blockNumber read)
    (fewer : (Feed.afterSegment b [] seq (walk.skipped.next read)).steps <
      (Feed.within b [] seq walk).steps) :
    ∃ answer rest feed', Step readDelayedInbox (.within b [] seq walk) answer rest feed' := by
  obtain ⟨live, left⟩ := afterSegment_answers readDelayedInbox b seq (walk.skipped.next read)
  refine ⟨_, _, _, popWithin_eq [] emitted, answers, live, ?_⟩
  rcases left with same | ⟨nothing, quiet⟩
  · exact .inl ⟨fewer, same⟩
  · exact .inr (.inl ⟨fewer, nothing, quiet⟩)

/-- Only pending delayed messages are left of the batch, and there are some. -/
theorem pending_step (b : SequencerInboxBatch) (walk : Walk) (empty : walk.skipped.rest = [])
    (waits : walk.delayedRead < seq.afterDelayedMessages)
    (skipped : ofFeed readDelayedInbox (.within b [] seq walk) =
      segments seq (some b.blockHash) readDelayedInbox walk.skipped.rest walk.skipped.timestamp
        walk.skipped.blockNumber walk.delayedRead) :
    ∃ answer rest feed', Step readDelayedInbox (.within b [] seq walk) answer rest feed' := by
  obtain ⟨n, count⟩ : ∃ n, seq.afterDelayedMessages - walk.delayedRead = n + 1 :=
    ⟨seq.afterDelayedMessages - walk.delayedRead - 1, by omega⟩
  have virtual : walk.skipped.segment = [batchSegmentKindDelayedMessages] := Walk.segment_nil empty
  rw [empty, segments, count, pending] at skipped
  cases stored : readDelayedInbox walk.delayedRead with
  | error e =>
    have emitted : segmentMessage seq (some b.blockHash) readDelayedInbox walk.skipped.timestamp
        walk.skipped.blockNumber walk.delayedRead walk.skipped.segment =
          .ok (.error e, walk.delayedRead) := by
      rw [virtual, segmentMessage_delayed, if_neg (not_le.mpr waits), stored]
    have unfinished : (walk.skipped.next walk.delayedRead).finished seq = false := by
      simp [Walk.finished, Walk.next, waits]
    have stays : Feed.afterSegment b [] seq (walk.skipped.next walk.delayedRead) =
        .within b [] seq (walk.skipped.next walk.delayedRead) := by
      simp only [Feed.afterSegment, unfinished, Bool.false_eq_true, if_false]
    refine ⟨_, _, _, popWithin_eq [] emitted, by rw [skipped, stored], ?_, .inr (.inr ⟨e, rfl, rfl, ?_⟩)⟩
    · rw [stays]
      exact ⟨rfl, .inl waits⟩
    · rw [stays]
      simp only [ofFeed, Walk.next, empty, List.tail_nil, segments, count, pending, stored]
  | ok delayed =>
    have emitted : segmentMessage seq (some b.blockHash) readDelayedInbox walk.skipped.timestamp
        walk.skipped.blockNumber walk.delayedRead walk.skipped.segment =
          .ok (.ok (some ⟨⟨delayed, walk.delayedRead + 1⟩, none, none⟩), walk.delayedRead + 1) := by
      rw [virtual, segmentMessage_delayed, if_neg (not_le.mpr waits), stored]
    refine step_of_emitted emitted ?_ ?_
    · have fewer : seq.afterDelayedMessages - (walk.delayedRead + 1) = n := by omega
      simp only [skipped, stored, empty, List.tail_nil, segments, fewer]
    · rcases afterSegment_steps [] emitted with fewer | ⟨_, _, e, missing, _⟩
      · exact fewer
      · rw [stored] at missing
        contradiction

/-- A submessage is at the front of what is left of the batch. -/
theorem submessage_step (b : SequencerInboxBatch) (walk : Walk) {seg : Bytes} {tail : List Bytes}
    (front : walk.skipped.rest = seg :: tail) (submessage : isSubmessage seg = true)
    (skipped : ofFeed readDelayedInbox (.within b [] seq walk) =
      segments seq (some b.blockHash) readDelayedInbox walk.skipped.rest walk.skipped.timestamp
        walk.skipped.blockNumber walk.delayedRead) :
    ∃ answer rest feed', Step readDelayedInbox (.within b [] seq walk) answer rest feed' := by
  have here : walk.skipped.segment = seg := Walk.segment_cons front
  rw [front, segments_submessage submessage, ← here] at skipped
  cases emitted : segmentMessage seq (some b.blockHash) readDelayedInbox walk.skipped.timestamp
      walk.skipped.blockNumber walk.delayedRead walk.skipped.segment with
  | error panic =>
    rw [emitted] at skipped
    refine ⟨_, _, .within b [] seq walk.skipped, ?_, skipped, ⟨rfl, .inr ?_⟩,
      .inr (.inr ⟨panic, rfl, rfl, ?_⟩)⟩
    · simp only [Feed.pop, Feed.popWithin, emitted]
      rfl
    · rw [front, List.any_cons, submessage, Bool.true_or]
    · have read : walk.skipped.delayedRead = walk.delayedRead := Walk.skip_delayedRead ..
      rw [here] at emitted
      simp only [ofFeed, read, front, segments_submessage submessage, emitted]
  | ok outcome =>
    obtain ⟨answer, read⟩ := outcome
    rw [emitted] at skipped
    refine step_of_emitted emitted (by rw [skipped, front]; rfl) ?_
    rcases afterSegment_steps [] emitted with fewer | ⟨empty, _⟩
    · exact fewer
    · rw [front] at empty
      contradiction

theorem within_step (readDelayedInbox : Nat → Except Error L1IncomingMessage)
    (b : SequencerInboxBatch) (walk : Walk) (live : Live (.within b [] seq walk)) :
    ∃ answer rest feed', Step readDelayedInbox (.within b [] seq walk) answer rest feed' := by
  have skipped : ofFeed readDelayedInbox (.within b [] seq walk) =
      segments seq (some b.blockHash) readDelayedInbox walk.skipped.rest walk.skipped.timestamp
        walk.skipped.blockNumber walk.delayedRead :=
    (segments_skip seq (some b.blockHash) readDelayedInbox walk.rest walk.timestamp
      walk.blockNumber walk.delayedRead).symm
  rcases walk.skipped_stops with empty | ⟨seg, tail, front, submessage⟩
  · refine pending_step b walk empty ?_ skipped
    rcases live.2 with waits | some
    · exact waits
    · have reached := skip_any walk.delayedRead walk.rest walk.timestamp walk.blockNumber
      change walk.skipped.rest.any isSubmessage = _ at reached
      rw [← reached, empty] at some
      contradiction
  · exact submessage_step b walk front submessage skipped

/-- A batch with nothing to give answers with an invalid message and is left. -/
theorem idle_pop (readDelayedInbox : Nat → Except Error L1IncomingMessage)
    (b : SequencerInboxBatch) (walk : Walk) (drained : seq.afterDelayedMessages ≤ walk.delayedRead)
    (idle : walk.rest.any isSubmessage = false) :
    (Feed.within b [] seq walk).pop readDelayedInbox =
      Outcome.lift (.ok (some ⟨⟨invalidMessage seq, seq.afterDelayedMessages⟩, some b.blockHash, none⟩))
        (.between [] seq.afterDelayedMessages) := by
  have reached := skip_any walk.delayedRead walk.rest walk.timestamp walk.blockNumber
  change walk.skipped.rest.any isSubmessage = _ at reached
  have empty : walk.skipped.rest = [] := by
    rcases walk.skipped_stops with empty | ⟨seg, tail, front, submessage⟩
    · exact empty
    · rw [idle, front, List.any_cons, submessage] at reached
      contradiction
  have virtual : walk.skipped.segment = [batchSegmentKindDelayedMessages] := Walk.segment_nil empty
  have emitted : segmentMessage seq (some b.blockHash) readDelayedInbox walk.skipped.timestamp
      walk.skipped.blockNumber walk.delayedRead walk.skipped.segment =
        .ok (.ok (some ⟨⟨invalidMessage seq, seq.afterDelayedMessages⟩, some b.blockHash, none⟩),
          walk.delayedRead) := by
    rw [virtual, segmentMessage_delayed, if_pos drained]
  have finished : (walk.skipped.next walk.delayedRead).finished seq = true := by
    rw [Walk.finished_iff]
    exact ⟨drained, by rw [Walk.next, empty]; rfl⟩
  rw [popWithin_eq [] emitted, Feed.afterSegment, if_pos finished]

theorem feed_step {feed : Feed} (live : Live feed) :
    (∃ read, feed = .between [] read) ∨
      ∃ answer rest feed', Step readDelayedInbox feed answer rest feed' := by
  cases feed with
  | within b later seq walk =>
    obtain ⟨rfl, _⟩ := id live
    exact .inr (within_step _ b walk live)
  | between batches read =>
    rcases batches with _ | ⟨b, _ | ⟨b', later⟩⟩
    · exact .inl ⟨read, rfl⟩
    · right
      cases parsed : parseSequencerMessage b.serialized with
      | error e =>
        refine ⟨.error e, [], .between [b] read, ?_, ?_, le_rfl, .inr (.inr ⟨e, rfl, rfl, ?_⟩)⟩
        · simp only [Feed.pop, parsed]
          rfl
        · simp only [ofFeed, parsed]
        · simp only [ofFeed, parsed]
      | ok seq =>
        have opened : (Feed.between [b] read).pop readDelayedInbox =
            (Feed.within b [] seq ⟨seq.segments, 0, 0, read⟩).pop readDelayedInbox := by
          simp only [Feed.pop, parsed]
        have inside : (Feed.within b [] seq ⟨seq.segments, 0, 0, read⟩).steps ≤
            (Feed.between [b] read).steps := by
          have fits := steps_of_parse parsed
          simp only [Feed.steps, List.length_nil, List.length_singleton]
          omega
        by_cases idle : seq.afterDelayedMessages ≤ read ∧ seq.segments.any isSubmessage = false
        · have popped := idle_pop readDelayedInbox b ⟨seq.segments, 0, 0, read⟩ idle.1 idle.2
          refine ⟨_, [], _, opened.trans popped, ?_, Nat.zero_le _, .inr (.inl ⟨?_, rfl, by simp⟩)⟩
          · simp only [ofFeed, parsed, batch, if_pos idle]
          · have some : 0 < Feed.batchSteps := Nat.add_pos_right _ (Nat.two_pow_pos 64)
            simpa only [Feed.steps, List.length_nil, List.length_singleton, Nat.zero_mul,
              Nat.one_mul] using some
        · have live : Live (.within b [] seq ⟨seq.segments, 0, 0, read⟩) :=
            ⟨rfl, by simpa [or_iff_not_imp_left] using idle⟩
          obtain ⟨answer, rest, feed', step⟩ := within_step readDelayedInbox b _ live
          refine ⟨answer, rest, feed', opened.trans step.popped, ?_, step.live, ?_⟩
          · rw [← step.answers]
            simp only [ofFeed, parsed, batch, if_neg idle]
          · rcases step.moved with ⟨fewer, same⟩ | ⟨fewer, nothing, quiet⟩ | stuck
            · exact .inl ⟨fewer.trans_le inside, same⟩
            · exact .inr (.inl ⟨fewer.trans_le inside, nothing, quiet⟩)
            · exact .inr (.inr stuck)
    · exact absurd (Nat.le_of_succ_le_succ live) (Nat.not_succ_le_zero _)

/-- With enough pops, a feed gives the messages of its answers. -/
theorem length_messages {feed : Feed} {n : Nat} (live : Live feed)
    (enough : feed.steps ≤ n ∨ (ofFeed readDelayedInbox feed).countP isMessage = 0) :
    (feed.messages readDelayedInbox n).length = (ofFeed readDelayedInbox feed).countP isMessage := by
  induction n generalizing feed with
  | zero =>
    rcases feed_step live with ⟨read, rfl⟩ | ⟨answer, rest, feed', step⟩
    · rfl
    · rcases step.moved with ⟨fewer, _⟩ | ⟨fewer, _⟩ | ⟨e, rfl, rfl, _⟩
      · rw [enough.resolve_left (by omega)]
        rfl
      · rw [enough.resolve_left (by omega)]
        rfl
      · rw [step.answers]
        rfl
  | succ n ih =>
    rcases feed_step live with ⟨read, rfl⟩ | ⟨answer, rest, feed', step⟩
    · exact @ih (.between [] read) live (.inr rfl)
    · have counted : (feed.messages readDelayedInbox (n + 1)).length =
          (if isMessage answer then 1 else 0) + (feed'.messages readDelayedInbox n).length := by
        rw [Feed.messages, step.popped]
        match answer with
        | .error e => simp [isMessage]
        | .ok none => simp [isMessage]
        | .ok (some m) => simp [isMessage, Nat.add_comm]
      have total : (ofFeed readDelayedInbox feed).countP isMessage =
          (if isMessage answer then 1 else 0) + rest.countP isMessage := by
        rw [step.answers, List.countP_cons, Nat.add_comm]
      rw [counted, total]
      rcases step.moved with ⟨fewer, same⟩ | ⟨_, nothing, quiet⟩ | ⟨e, rfl, rfl, stuck⟩
      · rw [ih step.live, same]
        rw [same]
        rcases enough with enough | none
        · exact .inl (by omega)
        · exact .inr (by omega)
      · have none : rest.countP isMessage = 0 := by
          rw [List.countP_eq_zero]
          intro a member
          rw [quiet a member]
          exact Bool.false_ne_true
        rw [ih step.live (.inr (by rw [nothing]; rfl)), nothing, none]
        rfl
      · rw [ih step.live (.inr (by rw [stuck]; rfl)), stuck]
        rfl

/-- The drain loop on the answers of a batch: it stops at the first one that is no message. -/
def drained : List Answer → Except Error (List MessageWithMetadataAndBlockInfo)
  | [] => .ok []
  | .ok none :: _ => .ok []
  | .error e :: _ => .error e
  | .ok (some m) :: rest => do
    let out ← drained rest
    return m :: out

theorem drain_eq {feed : Feed} {fuel : Nat} (live : Live feed) (enough : feed.steps < fuel) :
    feed.drain readDelayedInbox fuel = drained (ofFeed readDelayedInbox feed) := by
  induction fuel generalizing feed with
  | zero => omega
  | succ fuel ih =>
    rcases feed_step live with ⟨read, rfl⟩ | ⟨answer, rest, feed', step⟩
    · rfl
    · rw [Feed.drain, step.popped, step.answers]
      match answer, step with
      | .error e, _ => rfl
      | .ok none, _ => rfl
      | .ok (some m), step =>
        have later : feed'.drain readDelayedInbox fuel = drained rest := by
          rcases step.moved with ⟨fewer, same⟩ | ⟨fewer, nothing, quiet⟩ | ⟨e, failed, _⟩
          · rw [ih step.live (by omega), same]
          · rw [ih step.live (by omega), nothing]
            cases rest with
            | nil => rfl
            | cons a rest =>
              rw [quiet a List.mem_cons_self]
              rfl
          · contradiction
        simp only [Outcome.lift_ok, later, drained]

end Answers

/-- The multiplexer gives the messages of the feed that it stands for. -/
theorem messages_refines [Externals] {readDelayedInbox : Nat → Except Error L1IncomingMessage}
    {mux : InboxMultiplexer} {feed : Feed} (n : Nat) (tracks : Tracks readDelayedInbox mux feed) :
    mux.messages n = feed.messages readDelayedInbox n := by
  induction n generalizing mux feed with
  | zero => rfl
  | succ n ih =>
    have popped := pop_refines tracks
    unfold InboxMultiplexer.messages Feed.messages
    revert popped
    cases mux.pop with
    | error e mux' =>
      cases feed.pop readDelayedInbox with
      | error e' feed' => exact fun related => ih related.2
      | ok b feed' => exact False.elim
    | ok a mux' =>
      cases feed.pop readDelayedInbox with
      | error e' feed' => exact False.elim
      | ok b feed' =>
        rintro ⟨rfl, tracks⟩
        cases a with
        | none => exact ih tracks
        | some m => simp only [ih tracks]

end NitroRs
