import NitroRs.Inbox.Ingested
import NitroRs.Streamer.DelayedReads

/-! The messages that a feed emits over a list of batches, cut at any batch: the first
part emits what it emits alone, and the second goes on where the first has ended. -/
namespace NitroRs

namespace Feed

/-- The feed with more batches behind it. -/
def extend (more : List SequencerInboxBatch) : Feed → Feed
  | between batches read => between (batches ++ more) read
  | within batch later seq walk => within batch (later ++ more) seq walk

def extended {ε α : Type} (more : List SequencerInboxBatch) : EStateM.Result ε Feed α → EStateM.Result ε Feed α
  | .ok a feed => .ok a (feed.extend more)
  | .error e feed => .error e (feed.extend more)

@[simp] theorem extend_afterSegment (more : List SequencerInboxBatch) (batch : SequencerInboxBatch)
    (later : List SequencerInboxBatch) (seq : SequencerMessage) (walk : Walk) :
    (afterSegment batch later seq walk).extend more = afterSegment batch (later ++ more) seq walk := by
  unfold afterSegment
  split
  · rfl
  · rfl

variable [Externals] {readDelayedInbox : Nat → Except Error L1IncomingMessage}

theorem popWithin_extend (more : List SequencerInboxBatch) (batch : SequencerInboxBatch)
    (later : List SequencerInboxBatch) (seq : SequencerMessage) (walk : Walk) :
    popWithin readDelayedInbox batch (later ++ more) seq walk =
      extended more (popWithin readDelayedInbox batch later seq walk) := by
  unfold popWithin
  cases segmentMessage seq (some batch.blockHash) readDelayedInbox walk.skipped.timestamp
      walk.skipped.blockNumber walk.delayedRead walk.skipped.segment with
  | error panic => rfl
  | ok answer =>
    obtain ⟨result, read⟩ := answer
    dsimp only
    rw [← extend_afterSegment]
    cases result with
    | error e => rfl
    | ok m => rfl

/-- Before its end a feed does not see the batches behind it. -/
theorem pop_extend (more : List SequencerInboxBatch) {feed : Feed} (unended : ¬ feed.Ended) :
    (feed.extend more).pop readDelayedInbox = extended more (feed.pop readDelayedInbox) := by
  cases feed with
  | within batch later seq walk => exact popWithin_extend more batch later seq walk
  | between batches read =>
    cases batches with
    | nil => exact absurd ⟨read, rfl⟩ unended
    | cons batch later =>
      simp only [extend, List.cons_append, pop]
      cases parseSequencerMessage batch.serialized with
      | error e => rfl
      | ok seq => exact popWithin_extend more batch later seq _

/-- Pops that all answer with a message. -/
inductive Emits (readDelayedInbox : Nat → Except Error L1IncomingMessage) :
    Feed → List MessageWithMetadataAndBlockInfo → Feed → Prop where
  | done (feed : Feed) : Emits readDelayedInbox feed [] feed
  | next {feed feed' last : Feed} {m : MessageWithMetadataAndBlockInfo}
      {out : List MessageWithMetadataAndBlockInfo} :
      feed.pop readDelayedInbox = .ok (some m) feed' → Emits readDelayedInbox feed' out last →
        Emits readDelayedInbox feed (m :: out) last

namespace Emits
variable {feed middle last : Feed} {front out : List MessageWithMetadataAndBlockInfo}

theorem trans (first : Emits readDelayedInbox feed front middle)
    (second : Emits readDelayedInbox middle out last) :
    Emits readDelayedInbox feed (front ++ out) last := by
  induction first with
  | done => exact second
  | next popped _ ih => exact .next popped (ih second)

theorem unended {feed' : Feed} {m : MessageWithMetadataAndBlockInfo}
    (popped : feed.pop readDelayedInbox = .ok (some m) feed') : ¬ feed.Ended := by
  rintro ⟨read, rfl⟩
  simp [pop] at popped

/-- The first part of a list of batches emits what it emits alone. -/
theorem extend (more : List SequencerInboxBatch) (run : Emits readDelayedInbox feed out last) :
    Emits readDelayedInbox (feed.extend more) out (last.extend more) := by
  induction run with
  | done feed => exact .done _
  | next popped _ ih => exact .next (by rw [pop_extend more (unended popped), popped]; rfl) ih

/-- What is emitted up to the end are the messages of all pops. -/
theorem messages {read n : Nat} (run : Emits readDelayedInbox feed out (between [] read))
    (enough : out.length ≤ n) : feed.messages readDelayedInbox n = out := by
  generalize ended : between [] read = last at run
  induction run generalizing n with
  | done feed =>
    subst ended
    induction n with
    | zero => rfl
    | succ n ih => exact ih n.zero_le
  | next popped _ ih =>
    obtain ⟨n, rfl⟩ : ∃ k, n = k + 1 := ⟨n - 1, by rw [List.length_cons] at enough; omega⟩
    rw [Feed.messages, popped]
    exact congrArg _ (ih (by simpa using enough) ended)

end Emits

/-- The drain loop, with as many iterations as it can need. -/
def drainAll (readDelayedInbox : Nat → Except Error L1IncomingMessage) (feed : Feed) :
    Except Error (List MessageWithMetadataAndBlockInfo) := feed.drain readDelayedInbox (feed.steps + 1)

theorem drainAll_emits {feed last : Feed} {out : List MessageWithMetadataAndBlockInfo}
    (run : Emits readDelayedInbox feed out last) :
    feed.drainAll readDelayedInbox = (last.drainAll readDelayedInbox).map (out ++ ·) := by
  induction run with
  | done feed => cases feed.drainAll readDelayedInbox <;> rfl
  | @next feed feed' last m out popped rest ih =>
    have fewer := pop_steps popped
    rw [drainAll, drain, popped]
    dsimp only
    rw [drain_stable fewer (Nat.lt_succ_self feed'.steps)]
    change (do let out ← feed'.drainAll readDelayedInbox; return m :: out) = _
    rw [ih]
    cases last.drainAll readDelayedInbox <;> rfl

theorem drainAll_none {feed feed' : Feed} (popped : feed.pop readDelayedInbox = .ok none feed') :
    feed.drainAll readDelayedInbox = .ok [] := by
  rw [drainAll, drain, popped]

theorem drainAll_error {feed feed' : Feed} {e : Error}
    (popped : feed.pop readDelayedInbox = .error e feed') :
    feed.drainAll readDelayedInbox = .error e := by
  rw [drainAll, drain, popped]

end Feed

theorem streamBatches_eq [Externals] (db : Db) (batches : List SequencerInboxBatch) (read : Nat) :
    InboxTracker.streamBatches db batches read =
      (Feed.between batches read).drainAll (InboxTracker.getDelayedMessage db) := by
  rw [InboxTracker.streamBatches, drain_refines _ (new_tracks batches read)]
  rfl

/-- No broken L2 segment comes in front of the first unknown segment. -/
def readable [Externals] : List Bytes → Bool
  | [] => true
  | seg :: rest => !isBrokenL2 seg && (isUnknown seg || readable rest)

section Segments
variable [Externals] {readDelayedInbox : Nat → Except Error L1IncomingMessage} {seq : SequencerMessage}

theorem readable_skip (read : Nat) (rest : List Bytes) (ts bn : UInt64) :
    readable (Walk.skip read rest ts bn).rest = readable rest :=
  Walk.skip_invariant (fun rest _ _ => readable rest) (fun _ _ _ => rfl) (fun _ _ _ _ => rfl)
    (fun _ _ _ _ => rfl) read rest ts bn

/-- A virtual segment is not broken. -/
theorem readable_segment (walk : Walk) :
    readable walk.rest = readable (walk.segment :: walk.rest.tail) := by
  cases rest : walk.rest with
  | nil =>
    have virtual : walk.segment = [batchSegmentKindDelayedMessages] := Walk.segment_nil rest
    rw [virtual]
    rfl
  | cons seg tail =>
    have first : walk.segment = seg := Walk.segment_cons rest
    rw [first, List.tail_cons]

theorem isBrokenL2_keepsOpen {seg : Bytes} (broken : isBrokenL2 seg = true) : keepsOpen seg = true := by
  cases seg with
  | nil => contradiction
  | cons kind body =>
    rw [isBrokenL2, Bool.and_eq_true, InboxTracker.isL2Segment] at broken
    rw [keepsOpen, Bool.or_eq_true]
    exact .inl broken.1

theorem readable_closed {rest : List Bytes} (closed : rest.any keepsOpen = false) :
    readable rest = true := by
  induction rest with
  | nil => rfl
  | cons seg rest ih =>
    rw [List.any_cons, Bool.or_eq_false_iff] at closed
    have sound : isBrokenL2 seg = false := by
      by_contra broken
      rw [isBrokenL2_keepsOpen (by simpa using broken)] at closed
      exact absurd closed.1 (by decide)
    rw [readable, sound, ih closed.2, Bool.or_true]
    rfl

end Segments

namespace Feed
variable [Externals] {readDelayedInbox : Nat → Except Error L1IncomingMessage} {seq : SequencerMessage}

/-- How the emission from a feed stops: at a broken L2 segment, or at an unknown segment
with something behind it, or where it should. -/
def Stops (readDelayedInbox : Nat → Except Error L1IncomingMessage) (feed : Feed)
    (sound shown : Prop) (stop : Feed) : Prop :=
  ∃ out last, Emits readDelayedInbox feed out last ∧
    ((¬ sound ∧ ∃ feed', last.pop readDelayedInbox = .error .brotli feed') ∨
      (sound ∧ ¬ shown ∧ ¬ last.Ended ∧ ∃ feed', last.pop readDelayedInbox = .ok none feed') ∨
      (sound ∧ shown ∧ last = stop))

theorem Stops.next {feed feed' stop : Feed} {m : MessageWithMetadataAndBlockInfo} {sound shown : Prop}
    (popped : feed.pop readDelayedInbox = .ok (some m) feed')
    (stops : Stops readDelayedInbox feed' sound shown stop) :
    Stops readDelayedInbox feed sound shown stop := by
  obtain ⟨out, last, run, cases⟩ := stops
  exact ⟨m :: out, last, .next popped run, cases⟩

theorem Stops.congr {feed stop : Feed} {sound sound' shown shown' : Prop} (same : sound' ↔ sound)
    (same' : shown' ↔ shown) (stops : Stops readDelayedInbox feed sound shown stop) :
    Stops readDelayedInbox feed sound' shown' stop := by
  rw [Stops, same, same']
  exact stops

/-- What a submessage gives with all pending delayed messages there: nothing if it is unknown,
an error if it is broken, and a message otherwise. -/
theorem segmentMessage_available {seg : Bytes} (hash : Option B256) (ts bn : UInt64) {read : Nat}
    (ordered : BoundsOrdered seq) (available : Available readDelayedInbox read seq.afterDelayedMessages)
    (submessage : isSubmessage seg = true) :
    (isUnknown seg = true ∧ isBrokenL2 seg = false ∧
        segmentMessage seq hash readDelayedInbox ts bn read seg = .ok (.ok none, read)) ∨
      (isBrokenL2 seg = true ∧ ∃ read', segmentMessage seq hash readDelayedInbox ts bn read seg =
        .ok (.error .brotli, read')) ∨
      isUnknown seg = false ∧ keepsOpen seg = true ∧ isBrokenL2 seg = false ∧ ∃ m,
        segmentMessage seq hash readDelayedInbox ts bn read seg =
          .ok (.ok (some m), if isDelayedSegment seg ∧ read < seq.afterDelayedMessages ∧
            (readDelayedInbox read).toOption.isSome then read + 1 else read) := by
  have kinds := Answers.submessage_kinds seq hash readDelayedInbox ts bn read submessage
  rcases segmentMessage_kinds readDelayedInbox hash ts bn read ordered submessage with
    ⟨unknown, silent⟩ | ⟨known, opens, result, emitted, answered⟩
  · refine .inl ⟨unknown, ?_, silent⟩
    rcases kinds with ⟨_, whole, _⟩ | ⟨_, _, _, failed⟩ | ⟨_, whole, _⟩ | ⟨_, whole, _⟩
    · exact whole
    · cases silent.symm.trans failed
    · exact whole
    · exact whole
  · rcases kinds with ⟨_, whole, _, ⟨_, m, given⟩ | ⟨unordered, _⟩⟩ | ⟨_, broken, _, failed⟩ |
      ⟨_, whole, _, delayed⟩ | ⟨_, _, _, silent⟩
    · rw [given, Except.ok.injEq, Prod.mk.injEq] at emitted
      exact .inr (.inr ⟨known, opens, whole, m, by rw [given, ← emitted.2]⟩)
    · exact absurd ordered unordered
    · exact .inr (.inl ⟨broken, read, failed⟩)
    · refine .inr (.inr ⟨known, opens, whole, ?_⟩)
      -- the pending message is there, or the virtual segment stands for a missing one
      have given : ∃ m, result = .ok (some m) := by
        rw [emitted, segmentMessage_delayed] at delayed
        by_cases drained : seq.afterDelayedMessages ≤ read
        · rw [if_pos drained, Except.ok.injEq, Prod.mk.injEq] at delayed
          exact ⟨_, delayed.1⟩
        · obtain ⟨m, stored⟩ := available read le_rfl (Nat.lt_of_not_le drained)
          rw [if_neg drained, stored] at delayed
          simp only [Except.ok.injEq, Prod.mk.injEq] at delayed
          exact ⟨_, delayed.1⟩
      obtain ⟨m, rfl⟩ := given
      exact ⟨m, emitted⟩
    · rw [silent, Except.ok.injEq, Prod.mk.injEq] at emitted
      exact absurd emitted.1.symm answered

theorem readable_skipped (walk : Walk) :
    readable walk.rest = readable (walk.skipped.segment :: walk.skipped.rest.tail) :=
  (readable_skip walk.delayedRead walk.rest walk.timestamp walk.blockNumber).symm.trans
    (readable_segment walk.skipped)

theorem nothingHidden_walk (walk : Walk) :
    NothingHidden readDelayedInbox seq.afterDelayedMessages False walk.rest walk.delayedRead ↔
      NothingHidden readDelayedInbox seq.afterDelayedMessages False (walk.skipped.segment :: walk.skipped.rest.tail)
        walk.delayedRead :=
  (nothingHidden_skipped walk.delayedRead walk.rest walk.timestamp walk.blockNumber).symm.trans
    (nothingHidden_segment walk.skipped)

/-- A segment with a message of its own: the message, then the rest of the batch. -/
theorem Stops.message {b : SequencerInboxBatch} {later : List SequencerInboxBatch} {walk : Walk}
    {m : MessageWithMetadataAndBlockInfo} {read : Nat} (known : isUnknown walk.skipped.segment = false)
    (opens : keepsOpen walk.skipped.segment = true) (whole : isBrokenL2 walk.skipped.segment = false)
    (moved : read = if isDelayedSegment walk.skipped.segment ∧ walk.delayedRead < seq.afterDelayedMessages ∧
      (readDelayedInbox walk.delayedRead).toOption.isSome then walk.delayedRead + 1 else walk.delayedRead)
    (popped : (within b later seq walk).pop readDelayedInbox =
      .ok (some m) (afterSegment b later seq (walk.skipped.next read)))
    (rest : (walk.skipped.next read).finished seq = false →
      Stops readDelayedInbox (within b later seq (walk.skipped.next read))
        (readable (walk.skipped.next read).rest = true)
        (NothingHidden readDelayedInbox seq.afterDelayedMessages False (walk.skipped.next read).rest
          (walk.skipped.next read).delayedRead)
        (between later seq.afterDelayedMessages)) :
    Stops readDelayedInbox (within b later seq walk) (readable walk.rest = true)
      (NothingHidden readDelayedInbox seq.afterDelayedMessages False walk.rest walk.delayedRead)
      (between later seq.afterDelayedMessages) := by
  rw [readable_skipped, nothingHidden_walk, nothingHidden_message known opens, ← moved, readable, whole, known,
    Bool.not_false, Bool.true_and, Bool.false_or]
  apply Stops.next popped
  rw [afterSegment]
  split
  · rename_i finished
    refine ⟨[], _, .done _, .inr (.inr ⟨?_, nothingHidden_finished finished, rfl⟩)⟩
    exact readable_closed (Walk.finished_iff.mp finished).2
  · rename_i unfinished
    have open' : (walk.skipped.next read).finished seq = false := by simpa using unfinished
    exact Stops.congr Iff.rfl (nothingHidden_unfinished open') (rest open')

/-- The rest of a batch, with all pending delayed messages there. -/
theorem within_stops (b : SequencerInboxBatch) (later : List SequencerInboxBatch) (walk : Walk)
    (ordered : BoundsOrdered seq)
    (available : Available readDelayedInbox walk.delayedRead seq.afterDelayedMessages) :
    Stops readDelayedInbox (within b later seq walk) (readable walk.rest = true)
      (NothingHidden readDelayedInbox seq.afterDelayedMessages False walk.rest walk.delayedRead)
      (between later seq.afterDelayedMessages) := by
  generalize size : (within b later seq walk).steps = n
  induction n using Nat.strong_induction_on generalizing walk with
  | h n ih =>
    rcases segmentMessage_available (some b.blockHash) walk.skipped.timestamp walk.skipped.blockNumber ordered
      available (segment_submessage walk) with
      ⟨unknown, whole, silent⟩ | ⟨broken, read, failed⟩ | ⟨known, opens, whole, m, emitted⟩
    · rw [readable_skipped, nothingHidden_walk, nothingHidden_unknown unknown, readable, whole, unknown]
      exact ⟨[], _, .done _, .inr (.inl ⟨rfl, fun all => all.2.2, by simp [Ended], _, popWithin_eq later silent⟩)⟩
    · rw [readable_skipped, readable, broken]
      exact ⟨[], _, .done _, .inl ⟨by simp, _, popWithin_eq later failed⟩⟩
    · have popped := popWithin_eq later emitted
      refine Stops.message known opens whole rfl popped fun unfinished => ih _ ?_ _ ?_ rfl
      · have fewer := pop_steps popped
        rw [afterSegment, unfinished] at fewer
        exact size ▸ fewer
      · intro i above below
        refine available i ?_ below
        rcases segmentMessage_read emitted with same | ⟨_, same⟩
        · exact same ▸ above
        · have : walk.delayedRead + 1 ≤ i := same ▸ above
          omega

theorem Stops.trans {feed middle stop : Feed} {sound shown sound' shown' : Prop}
    (first : Stops readDelayedInbox feed sound shown middle)
    (second : Stops readDelayedInbox middle sound' shown' stop) :
    Stops readDelayedInbox feed (sound ∧ (shown → sound')) ((sound ∧ shown) ∧ shown') stop := by
  obtain ⟨out, last, run, ⟨broken, failed⟩ | ⟨sound, hidden, open', silent⟩ | ⟨sound, shown, rfl⟩⟩ := first
  · exact ⟨out, last, run, .inl ⟨fun both => broken both.1, failed⟩⟩
  · exact ⟨out, last, run, .inr (.inl ⟨⟨sound, fun shown => absurd shown hidden⟩,
      fun both => hidden both.1.2, open', silent⟩)⟩
  · obtain ⟨out', last', run', ⟨broken, failed⟩ | ⟨sound', hidden, silent⟩ |
      ⟨sound', shown', rfl⟩⟩ := second
    · exact ⟨_, _, run.trans run', .inl ⟨fun both => broken (both.2 shown), failed⟩⟩
    · exact ⟨_, _, run.trans run', .inr (.inl ⟨⟨sound, fun _ => sound'⟩,
        fun both => hidden both.2, silent⟩)⟩
    · exact ⟨_, _, run.trans run', .inr (.inr ⟨⟨sound, fun _ => sound'⟩, ⟨⟨sound, shown⟩, shown'⟩, rfl⟩)⟩

theorem pop_between {b : SequencerInboxBatch} (later : List SequencerInboxBatch) (read : Nat)
    (parsed : parseSequencerMessage b.serialized = .ok seq) :
    (between (b :: later) read).pop readDelayedInbox =
      (within b later seq ⟨seq.segments, 0, 0, read⟩).pop readDelayedInbox := by
  simp only [pop, parsed]

/-- The same from in front of the batch. -/
theorem between_stops {b : SequencerInboxBatch} (later : List SequencerInboxBatch) (read : Nat)
    (parsed : parseSequencerMessage b.serialized = .ok seq) (ordered : BoundsOrdered seq)
    (available : Available readDelayedInbox read seq.afterDelayedMessages) :
    Stops readDelayedInbox (between (b :: later) read) (readable seq.segments = true)
      (NothingHidden readDelayedInbox seq.afterDelayedMessages False seq.segments read)
      (between later seq.afterDelayedMessages) := by
  obtain ⟨out, last, run, cases⟩ := within_stops b later ⟨seq.segments, 0, 0, read⟩ ordered available
  have same := @pop_between _ readDelayedInbox seq b later read parsed
  cases run with
  | next popped rest => exact ⟨_, last, .next (same.trans popped) rest, cases⟩
  | done =>
    refine ⟨[], _, .done _, ?_⟩
    rcases cases with ⟨broken, failed⟩ | ⟨sound, hidden, _, silent⟩ | ⟨_, _, other⟩
    · exact .inl ⟨broken, same ▸ failed⟩
    · exact .inr (.inl ⟨sound, hidden, nofun, same ▸ silent⟩)
    · contradiction

end Feed

/-- A condition on each batch and the delayed count in front of it. -/
def Each [Externals] (p : SequencerMessage → Nat → Prop) : List SequencerInboxBatch → Nat → Prop
  | [], _ => True
  | b :: later, read => ∀ seq, parseSequencerMessage b.serialized = .ok seq →
      p seq read ∧ Each p later seq.afterDelayedMessages

/-- The multiplexer gets to the end of the batch and on to the next one. -/
def Closes [Externals] (readDelayedInbox : Nat → Except Error L1IncomingMessage)
    (seq : SequencerMessage) (read : Nat) : Prop :=
  readable seq.segments = true ∧
    NothingHidden readDelayedInbox seq.afterDelayedMessages False seq.segments read

/-- No broken L2 segment comes in front of the first segment at which the stream ends. -/
def Streamable [Externals] (readDelayedInbox : Nat → Except Error L1IncomingMessage) :
    List SequencerInboxBatch → Nat → Prop
  | [], _ => True
  | b :: later, read => ∀ seq, parseSequencerMessage b.serialized = .ok seq →
      readable seq.segments = true ∧
        (NothingHidden readDelayedInbox seq.afterDelayedMessages False seq.segments read →
          Streamable readDelayedInbox later seq.afterDelayedMessages)

/-- Batches as the L1 contract has them: they parse, their headers have the bounds in
order and the delayed count that the event has, no count decreases, and the delayed
messages are there. -/
def Served [Externals] (readDelayedInbox : Nat → Except Error L1IncomingMessage) :
    List SequencerInboxBatch → Nat → Prop
  | [], _ => True
  | b :: later, read => ∃ seq, parseSequencerMessage b.serialized = .ok seq ∧ BoundsOrdered seq ∧
      seq.afterDelayedMessages = b.afterDelayedCount ∧ read ≤ b.afterDelayedCount ∧
      Available readDelayedInbox read b.afterDelayedCount ∧
      Served readDelayedInbox later b.afterDelayedCount

/-- The delayed count behind a list of batches. -/
def readAfter (batches : List SequencerInboxBatch) (read : Nat) : Nat :=
  batches.foldl (fun _ b => b.afterDelayedCount) read

section Lists
variable [Externals] {readDelayedInbox : Nat → Except Error L1IncomingMessage}
  {batches more : List SequencerInboxBatch} {read : Nat}

theorem Served.append (served : Served readDelayedInbox (batches ++ more) read) :
    Served readDelayedInbox batches read ∧
      Served readDelayedInbox more (readAfter batches read) := by
  induction batches generalizing read with
  | nil => exact ⟨trivial, served⟩
  | cons b later ih =>
    obtain ⟨seq, parsed, ordered, header, above, available, rest⟩ := served
    obtain ⟨first, second⟩ := ih rest
    exact ⟨⟨seq, parsed, ordered, header, above, available, first⟩, second⟩

/-- How the emission over a list of batches stops. -/
theorem stream_stops (served : Served readDelayedInbox batches read) :
    Feed.Stops readDelayedInbox (.between batches read) (Streamable readDelayedInbox batches read)
      (Each (Closes readDelayedInbox) batches read) (.between [] (readAfter batches read)) := by
  induction batches generalizing read with
  | nil => exact ⟨[], _, .done _, .inr (.inr ⟨trivial, trivial, rfl⟩)⟩
  | cons b later ih =>
    obtain ⟨seq, parsed, ordered, header, _, available, rest⟩ := served
    rw [← header] at available rest
    have first := Feed.between_stops later read parsed ordered available
    have reached : readAfter (b :: later) read = readAfter later seq.afterDelayedMessages := by
      rw [readAfter, List.foldl_cons, ← header]
      rfl
    rw [reached]
    refine Feed.Stops.congr ?_ ?_ (first.trans (ih rest))
    · simp only [Streamable, parsed, Except.ok.injEq, forall_eq']
    · simp only [Each, Closes, parsed, Except.ok.injEq, forall_eq']

/-- Every L2 segment gives a message and every delayed one a pending message. -/
def Exact (seq : SequencerMessage) (read : Nat) : Prop :=
  (read < seq.afterDelayedMessages ∨ seq.segments.any isSubmessage = true) ∧
    seq.segments.countP isDelayedSegment ≤ seq.afterDelayedMessages - read

/-- The messages that the tracker counts for the batches. -/
def countedMessages : List SequencerInboxBatch → Nat → Nat
  | [], _ => 0
  | b :: later, read =>
    match parseSequencerMessage b.serialized with
    | .error _ => 0
    | .ok seq => seq.segments.countP InboxTracker.isL2Segment + (b.afterDelayedCount - read) +
        countedMessages later b.afterDelayedCount

theorem not_broken_of_closes {seq : SequencerMessage} (closes : Closes readDelayedInbox seq read) :
    seq.segments.countP isBrokenL2 = 0 := by
  obtain ⟨sound, hidden⟩ := closes
  suffices clean : ∀ segs : List Bytes, readable segs = true →
      (∀ pre seg post, segs = pre ++ seg :: post → isUnknown seg = true → post.any keepsOpen = false) →
        segs.countP isBrokenL2 = 0 from
    clean _ sound fun pre seg post split unknown => (hidden pre seg post split unknown).1
  intro segs
  induction segs with
  | nil => exact fun _ _ => rfl
  | cons seg rest ih =>
    intro sound closed
    rw [readable, Bool.and_eq_true, Bool.not_eq_true', Bool.or_eq_true] at sound
    rw [List.countP_cons_of_neg (by simp [sound.1])]
    rcases sound.2 with unknown | sound
    · have silent := closed [] seg rest rfl unknown
      rw [List.countP_eq_zero]
      intro other member broken
      have opens := List.any_eq_false.mp silent other member
      exact opens (isBrokenL2_keepsOpen broken)
    · exact ih sound fun pre other post split => closed (seg :: pre) other post (by rw [split]; rfl)

/-- A batch that closes gives at least the messages that the tracker counts for it. -/
theorem closed_messages {seq : SequencerMessage} {hash : Option B256} (ordered : BoundsOrdered seq)
    (available : Available readDelayedInbox read seq.afterDelayedMessages)
    (closes : Closes readDelayedInbox seq read) :
    seq.segments.countP InboxTracker.isL2Segment + (seq.afterDelayedMessages - read) ≤
        (Answers.batch seq hash readDelayedInbox read).countP isMessage ∧
      ((Answers.batch seq hash readDelayedInbox read).countP isMessage =
        seq.segments.countP InboxTracker.isL2Segment + (seq.afterDelayedMessages - read) ↔
          Exact seq read) := by
  have whole := not_broken_of_closes closes
  constructor
  · rw [Answers.countP_isL2Segment, whole, Answers.batch]
    split
    · rename_i idle
      have none : seq.segments.countP isReadableL2 = 0 := by
        rw [List.countP_eq_zero]
        intro seg member isReadable
        have skipped : isSubmessage seg = false := by
          simpa using List.any_eq_false.mp idle.2 seg member
        rw [(Answers.skipped_kinds skipped).1] at isReadable
        contradiction
      rw [none]
      omega
    · rw [Answers.countP_segments seq.segments 0 0 available (.inl ordered)]
      omega
  · have clamps : Clamps seq := .inl ordered
    rw [Answers.countP_batch_iff]
    simp only [Counted, available, clamps, whole, true_and, not_true, false_and, or_false, Exact]
    exact and_congr_right fun _ => Nat.sub_eq_zero_iff_le

/-- What batches that all close emit, and how it compares to the tracker's count. -/
theorem stream_through (served : Served readDelayedInbox batches read)
    (closed : Each (Closes readDelayedInbox) batches read) :
    ∃ out, Feed.Emits readDelayedInbox (.between batches read) out
        (.between [] (readAfter batches read)) ∧ countedMessages batches read ≤ out.length ∧
      (out.length = countedMessages batches read ↔ Each Exact batches read) := by
  induction batches generalizing read with
  | nil => exact ⟨[], .done _, le_rfl, iff_of_true rfl trivial⟩
  | cons b later ih =>
    obtain ⟨seq, parsed, ordered, header, _, available, rest⟩ := served
    obtain ⟨closes, closed⟩ := closed seq parsed
    rw [← header] at available rest
    obtain ⟨out, run, counted, exact⟩ := ih rest closed
    obtain ⟨front, last, first, ⟨broken, _⟩ | ⟨_, hidden, _⟩ | ⟨_, _, rfl⟩⟩ :=
      Feed.between_stops [] read parsed ordered available
    · exact absurd closes.1 broken
    · exact absurd closes.2 hidden
    have given : front.length =
        (Answers.batch seq (some b.blockHash) readDelayedInbox read).countP isMessage := by
      have live : Answers.Live (.between [b] read) := le_rfl
      have enough := le_max_left (Feed.between [b] read).steps front.length
      rw [← first.messages (le_max_right (Feed.between [b] read).steps front.length),
        Answers.length_messages live (.inl enough), Answers.ofFeed, parsed]
    obtain ⟨some, all⟩ := @closed_messages _ readDelayedInbox read seq (some b.blockHash) ordered available
      closes
    rw [← given] at some all
    have reached : readAfter (b :: later) read = readAfter later seq.afterDelayedMessages := by
      rw [readAfter, List.foldl_cons, ← header]
      rfl
    have whole : Each Exact (b :: later) read ↔
        Exact seq read ∧ Each Exact later seq.afterDelayedMessages := by
      simp only [Each, parsed, Except.ok.injEq, forall_eq']
    rw [reached, countedMessages, parsed, whole, ← all, ← exact]
    refine ⟨front ++ out, (first.extend later).trans run, ?_, ?_⟩
    · rw [List.length_append, ← header]
      dsimp only
      omega
    · rw [List.length_append, ← header]
      dsimp only
      omega

/-- A list of batches with more behind it: the stream fails or ends in the first part,
or the second part goes on with it. -/
theorem drainAll_append (served : Served readDelayedInbox batches read) :
    (¬ Streamable readDelayedInbox batches read ∧ ∀ more,
      (Feed.between (batches ++ more) read).drainAll readDelayedInbox = .error .brotli) ∨
    (Streamable readDelayedInbox batches read ∧ ¬ Each (Closes readDelayedInbox) batches read ∧
      ∃ out last, Feed.Emits readDelayedInbox (.between batches read) out last ∧
        ∀ more, (Feed.between (batches ++ more) read).drainAll readDelayedInbox = .ok out) ∨
    (Streamable readDelayedInbox batches read ∧ Each (Closes readDelayedInbox) batches read ∧
      ∃ out, Feed.Emits readDelayedInbox (.between batches read) out
        (.between [] (readAfter batches read)) ∧ countedMessages batches read ≤ out.length ∧
      (out.length = countedMessages batches read ↔ Each Exact batches read) ∧ ∀ more,
        (Feed.between (batches ++ more) read).drainAll readDelayedInbox =
          ((Feed.between more (readAfter batches read)).drainAll readDelayedInbox).map (out ++ ·)) := by
  obtain ⟨out, last, run, ⟨broken, _, failed⟩ | ⟨sound, hidden, open', _, silent⟩ |
    ⟨sound, closed, _⟩⟩ := stream_stops served
  · refine .inl ⟨broken, fun more => ?_⟩
    have unended : ¬ last.Ended := by
      rintro ⟨r, rfl⟩
      simp [Feed.pop] at failed
    refine (Feed.drainAll_emits (run.extend more)).trans ?_
    rw [Feed.drainAll_error ((Feed.pop_extend more unended).trans (congrArg _ failed))]
    rfl
  · refine .inr (.inl ⟨sound, hidden, out, last, run, fun more => ?_⟩)
    refine (Feed.drainAll_emits (run.extend more)).trans ?_
    rw [Feed.drainAll_none ((Feed.pop_extend more open').trans (congrArg _ silent))]
    exact congrArg Except.ok (List.append_nil out)
  · obtain ⟨out, run, counted, exact⟩ := stream_through served closed
    exact .inr (.inr ⟨sound, closed, out, run, counted, exact,
      fun more => Feed.drainAll_emits (run.extend more)⟩)

theorem drainAll_cases (served : Served readDelayedInbox batches read) :
    (¬ Streamable readDelayedInbox batches read ∧
      (Feed.between batches read).drainAll readDelayedInbox = .error .brotli) ∨
    (Streamable readDelayedInbox batches read ∧ ∃ out last,
      Feed.Emits readDelayedInbox (.between batches read) out last ∧
        (Feed.between batches read).drainAll readDelayedInbox = .ok out) := by
  have alone := List.append_nil batches
  rcases drainAll_append served with ⟨broken, failed⟩ | ⟨sound, _, out, last, run, given⟩ |
    ⟨sound, _, out, run, _, _, given⟩
  · exact .inl ⟨broken, alone ▸ failed []⟩
  · exact .inr ⟨sound, out, last, run, alone ▸ given []⟩
  · refine .inr ⟨sound, out, _, run, ?_⟩
    have whole := given []
    rw [alone] at whole
    rw [whole, Feed.drainAll_none rfl]
    exact congrArg Except.ok (List.append_nil out)

theorem streamable_append (served : Served readDelayedInbox batches read) :
    Streamable readDelayedInbox (batches ++ more) read ↔ Streamable readDelayedInbox batches read ∧
      (Each (Closes readDelayedInbox) batches read →
        Streamable readDelayedInbox more (readAfter batches read)) := by
  induction batches generalizing read with
  | nil => simp only [List.nil_append, Streamable, Each, true_and, forall_const, readAfter, List.foldl_nil]
  | cons b later ih =>
    obtain ⟨seq, parsed, _, header, _, _, rest⟩ := served
    rw [← header] at rest
    have reached : readAfter (b :: later) read = readAfter later seq.afterDelayedMessages := by
      rw [readAfter, List.foldl_cons, ← header]
      rfl
    simp only [List.cons_append, Streamable, Each, Closes, parsed, Except.ok.injEq, forall_eq', ih rest,
      reached]
    tauto

end Lists

section Reads
variable [Externals] {readDelayedInbox : Nat → Except Error L1IncomingMessage} {seq : SequencerMessage}
  {m : MessageWithMetadataAndBlockInfo} {read read' : Nat}

/-- A message carries the delayed count behind it. -/
theorem segmentMessage_some {hash : Option B256} {ts bn : UInt64} {seg : Bytes}
    (below : read ≤ seq.afterDelayedMessages)
    (emitted : segmentMessage seq hash readDelayedInbox ts bn read seg = .ok (.ok (some m), read')) :
    m.messageWithMeta.delayedMessagesRead = read' := by
  cases seg with
  | nil => cases emitted
  | cons kind body =>
    simp only [segmentMessage] at emitted
    split at emitted
    · split at emitted
      · cases emitted
      · simp only [bind, Except.bind] at emitted
        split at emitted
        · contradiction
        · split at emitted
          · contradiction
          · cases emitted
            rfl
    · split at emitted
      · split at emitted
        · rename_i drained
          cases emitted
          exact le_antisymm drained below
        · split at emitted
          · cases emitted
          · cases emitted
            rfl
      · cases emitted

namespace Feed

/-- The delayed count that the feed has got to. -/
def reached : Feed → Nat
  | between _ read => read
  | within _ _ _ walk => walk.delayedRead

/-- What is still to come is as the L1 contract has it. -/
def Lawful (readDelayedInbox : Nat → Except Error L1IncomingMessage) : Feed → Prop
  | between batches read => Served readDelayedInbox batches read
  | within _ later seq walk => walk.delayedRead ≤ seq.afterDelayedMessages ∧
      Served readDelayedInbox later seq.afterDelayedMessages

theorem popWithin_reads {b : SequencerInboxBatch} {later : List SequencerInboxBatch} {walk : Walk}
    {feed : Feed} (below : walk.delayedRead ≤ seq.afterDelayedMessages)
    (served : Served readDelayedInbox later seq.afterDelayedMessages)
    (popped : popWithin readDelayedInbox b later seq walk = .ok (some m) feed) :
    feed.Lawful readDelayedInbox ∧ m.messageWithMeta.delayedMessagesRead = feed.reached ∧
      walk.delayedRead ≤ feed.reached ∧ feed.reached ≤ walk.delayedRead + 1 := by
  unfold popWithin at popped
  split at popped
  · contradiction
  · rename_i result read emitted
    obtain ⟨rfl, rfl⟩ := Outcome.lift_eq_ok.mp popped
    have reads := segmentMessage_some below emitted
    have bounds : walk.delayedRead ≤ read ∧ read ≤ walk.delayedRead + 1 ∧
        read ≤ seq.afterDelayedMessages := by
      rcases segmentMessage_read emitted with same | ⟨_, same⟩
      · omega
      · omega
    unfold afterSegment
    split
    · rename_i finished
      have drained : seq.afterDelayedMessages ≤ read := (Walk.finished_iff.mp finished).1
      simp only [Lawful, reached]
      exact ⟨served, by omega, by omega, by omega⟩
    · exact ⟨⟨bounds.2.2, served⟩, reads, bounds.1, bounds.2.1⟩

theorem pop_reads {feed feed' : Feed} (lawful : feed.Lawful readDelayedInbox)
    (popped : feed.pop readDelayedInbox = .ok (some m) feed') :
    feed'.Lawful readDelayedInbox ∧ m.messageWithMeta.delayedMessagesRead = feed'.reached ∧
      feed.reached ≤ feed'.reached ∧ feed'.reached ≤ feed.reached + 1 := by
  cases feed with
  | within b later seq walk => exact popWithin_reads lawful.1 lawful.2 popped
  | between batches read =>
    cases batches with
    | nil => simp [pop] at popped
    | cons b later =>
      obtain ⟨seq, parsed, _, header, above, _, rest⟩ := lawful
      rw [← header] at above rest
      simp only [pop, parsed] at popped
      exact popWithin_reads above rest popped

open TransactionStreamer in
/-- The delayed counts of the messages never jump, and end where the feed does. -/
theorem Emits.reads {feed last : Feed} {out : List MessageWithMetadataAndBlockInfo}
    (run : Emits readDelayedInbox feed out last) (lawful : feed.Lawful readDelayedInbox) :
    (readsFrom feed.reached out).IsChain (fun before read => read ≤ before + 1) ∧
      (readsFrom feed.reached out).getLast? = some last.reached ∧ last.Lawful readDelayedInbox := by
  induction run with
  | done feed => exact ⟨by simp [readsFrom], rfl, lawful⟩
  | next popped _ ih =>
    obtain ⟨lawful', reads, _, step⟩ := pop_reads lawful popped
    obtain ⟨chain, final, lawful''⟩ := ih lawful'
    rw [readsFrom, List.map_cons, reads]
    exact ⟨List.isChain_cons_cons.mpr ⟨step, chain⟩, by rw [List.getLast?_cons_cons]; exact final, lawful''⟩

/-- The delayed count of the first message of a batch. -/
def firstRead (seq : SequencerMessage) (read : Nat) : Nat :=
  if read < seq.afterDelayedMessages ∧ (seq.segments.find? isSubmessage).all isDelayedSegment then
    read + 1
  else read

theorem pop_firstRead {b : SequencerInboxBatch} {later : List SequencerInboxBatch} {feed : Feed}
    (parsed : parseSequencerMessage b.serialized = .ok seq) (above : read ≤ seq.afterDelayedMessages)
    (popped : (between (b :: later) read).pop readDelayedInbox = .ok (some m) feed) :
    m.messageWithMeta.delayedMessagesRead = firstRead seq read := by
  rw [pop_between later read parsed, pop] at popped
  unfold popWithin at popped
  split at popped
  · contradiction
  · rename_i result read' emitted
    obtain ⟨rfl, rfl⟩ := Outcome.lift_eq_ok.mp popped
    rw [segmentMessage_some above emitted, firstRead]
    have same : (seq.segments.find? isSubmessage).all isDelayedSegment = isDelayedSegment
        (Walk.skipped ⟨seq.segments, 0, 0, read⟩).segment := by
      rw [← head_skip read seq.segments 0 0, Walk.segment, Walk.skipped]
      cases (Walk.skip read seq.segments 0 0).rest with
      | nil => rfl
      | cons seg tail => rfl
    rw [same]
    rcases Answers.submessage_kinds seq (some b.blockHash) readDelayedInbox _ _ read
      (segment_submessage ⟨seq.segments, 0, 0, read⟩) with
      ⟨_, _, kind, ⟨_, _, given⟩ | ⟨_, _, failed⟩⟩ | ⟨_, _, _, failed⟩ | ⟨_, _, kind, delayed⟩ |
      ⟨_, _, _, silent⟩
    · cases emitted.symm.trans given
      rw [kind, if_neg (by simp)]
    · cases emitted.symm.trans failed
    · cases emitted.symm.trans failed
    · rw [kind]
      rw [delayed, segmentMessage_delayed] at emitted
      by_cases drained : seq.afterDelayedMessages ≤ read
      · rw [if_pos drained] at emitted
        cases emitted
        rw [if_neg (by omega)]
      · rw [if_neg drained] at emitted
        rw [if_pos ⟨by omega, rfl⟩]
        cases stored : readDelayedInbox read with
        | error e =>
          rw [stored] at emitted
          cases emitted
        | ok delayed =>
          rw [stored] at emitted
          cases emitted
          rfl
    · cases emitted.symm.trans silent

end Feed
end Reads

end NitroRs
