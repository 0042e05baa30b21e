import NitroRs.Codecs
import NitroRs.Inbox.Feed
import NitroRs.Lib.Outcome
import NitroRs.Lib.Runs

/-! When the multiplexer answers that the stream has ended. A segment of an unknown
kind gives the same answer as the end of the batches, so the answer can be
trusted exactly for batches that hide nothing behind such a segment. -/
namespace NitroRs

/-- A segment that no branch of `get_next_msg` turns into a message. -/
def isUnknown : Bytes → Bool
  | [] => false
  | kind :: _ => batchSegmentKindAdvanceL1BlockNumber < kind

def isDelayedSegment : Bytes → Bool
  | [] => false
  | kind :: _ => kind = batchSegmentKindDelayedMessages

/-- Every delayed message in a range can be read. -/
def Available (readDelayedInbox : Nat → Except Error L1IncomingMessage) (start stop : Nat) : Prop :=
  ∀ i, start ≤ i → i < stop → ∃ m, readDelayedInbox i = .ok m

theorem available_of_le {readDelayedInbox : Nat → Except Error L1IncomingMessage} {start stop : Nat}
    (empty : stop ≤ start) : Available readDelayedInbox start stop := fun i low high => by omega

/-- Reading an available message leaves the others available, or not, as before. -/
theorem available_next_iff {readDelayedInbox : Nat → Except Error L1IncomingMessage} {start stop : Nat}
    {m : L1IncomingMessage} (stored : readDelayedInbox start = .ok m) :
    Available readDelayedInbox (start + 1) stop ↔ Available readDelayedInbox start stop := by
  constructor
  · intro available i low high
    rcases low.eq_or_lt with rfl | later
    · exact ⟨m, stored⟩
    · exact available i later high
  · exact fun available i low high => available i (by omega) high

/-- Behind every unknown segment there is nothing left to emit: no segment with a
message follows, the delayed segments before it use up all pending delayed
messages, and the batch has emitted something or nothing comes after it. -/
def NothingHidden (readDelayedInbox : Nat → Except Error L1IncomingMessage) (afterDelayed : Nat)
    (emitted : Prop) (segments : List Bytes) (read : Nat) : Prop :=
  ∀ pre seg post, segments = pre ++ seg :: post → isUnknown seg →
    post.any keepsOpen = false ∧ afterDelayed ≤ read + pre.countP isDelayedSegment ∧
      Available readDelayedInbox read afterDelayed ∧ (emitted ∨ pre.any keepsOpen)

/-- Every batch that a run gets to hides nothing. A run stays at a batch that does
not parse and within a batch whose delayed messages are not all there. -/
def HidesNothing [Externals] (readDelayedInbox : Nat → Except Error L1IncomingMessage) :
    List SequencerInboxBatch → Nat → Prop
  | [], _ => True
  | b :: later, read => ∀ seq, parseSequencerMessage b.serialized = .ok seq →
      NothingHidden readDelayedInbox seq.afterDelayedMessages (later = []) seq.segments read ∧
      (Available readDelayedInbox read seq.afterDelayedMessages →
        HidesNothing readDelayedInbox later seq.afterDelayedMessages)

variable {readDelayedInbox : Nat → Except Error L1IncomingMessage} {afterDelayed read : Nat}
  {emitted : Prop} {seg : Bytes} {rest : List Bytes}

theorem nothingHidden_nil : NothingHidden readDelayedInbox afterDelayed emitted [] read := by
  intro pre seg post split
  simp at split

theorem nothingHidden_skip (known : isUnknown seg = false) (silent : keepsOpen seg = false)
    (notDelayed : isDelayedSegment seg = false) :
    NothingHidden readDelayedInbox afterDelayed emitted (seg :: rest) read ↔
      NothingHidden readDelayedInbox afterDelayed emitted rest read := by
  constructor
  · intro hidden pre unknown post split isUnknown
    have whole := hidden (seg :: pre) unknown post (by rw [split]; rfl) isUnknown
    simpa only [List.countP_cons, notDelayed, List.any_cons, silent, Bool.false_or,
      Bool.false_eq_true, if_false, Nat.add_zero] using whole
  · intro hidden pre unknown post split isUnknown
    cases pre with
    | nil =>
      obtain ⟨rfl, rfl⟩ := List.cons.inj split
      rw [known] at isUnknown
      contradiction
    | cons first pre =>
      obtain ⟨rfl, rfl⟩ := List.cons.inj split
      simpa only [List.countP_cons, notDelayed, List.any_cons, silent, Bool.false_or,
        Bool.false_eq_true, if_false, Nat.add_zero] using hidden pre unknown post rfl isUnknown

theorem nothingHidden_l2 (known : isUnknown seg = false) (message : keepsOpen seg = true)
    (notDelayed : isDelayedSegment seg = false) :
    NothingHidden readDelayedInbox afterDelayed emitted (seg :: rest) read ↔
      NothingHidden readDelayedInbox afterDelayed True rest read := by
  constructor
  · intro hidden pre unknown post split isUnknown
    have whole := hidden (seg :: pre) unknown post (by rw [split]; rfl) isUnknown
    rw [List.countP_cons, notDelayed] at whole
    exact ⟨whole.1, whole.2.1, whole.2.2.1, .inl trivial⟩
  · intro hidden pre unknown post split isUnknown
    cases pre with
    | nil =>
      obtain ⟨rfl, rfl⟩ := List.cons.inj split
      rw [known] at isUnknown
      contradiction
    | cons first pre =>
      obtain ⟨rfl, rfl⟩ := List.cons.inj split
      have tail := hidden pre unknown post rfl isUnknown
      rw [List.countP_cons, notDelayed, List.any_cons, message]
      exact ⟨tail.1, tail.2.1, tail.2.2.1, .inr rfl⟩

theorem available_step {c : Prop} [Decidable c] :
    Available readDelayedInbox read afterDelayed ↔
      Available readDelayedInbox (if c ∧ read < afterDelayed ∧
        (readDelayedInbox read).toOption.isSome then read + 1 else read) afterDelayed := by
  split
  · rename_i stored
    cases found : readDelayedInbox read with
    | ok m => exact (available_next_iff found).symm
    | error e => simp [found, Except.toOption] at stored
  · rfl

/-- A delayed segment reads the next pending message if it is there. -/
theorem nothingHidden_delayed {read' : Nat} (known : isUnknown seg = false)
    (message : keepsOpen seg = true) (isDelayed : isDelayedSegment seg = true)
    (moved : read' = if read < afterDelayed ∧ (readDelayedInbox read).toOption.isSome then read + 1
      else read) :
    NothingHidden readDelayedInbox afterDelayed emitted (seg :: rest) read ↔
      NothingHidden readDelayedInbox afterDelayed True rest read' := by
  have same (pre : List Bytes) :
      (afterDelayed ≤ read + (seg :: pre).countP isDelayedSegment ∧
        Available readDelayedInbox read afterDelayed) ↔
      (afterDelayed ≤ read' + pre.countP isDelayedSegment ∧
        Available readDelayedInbox read' afterDelayed) := by
    rw [List.countP_cons, if_pos isDelayed, moved]
    by_cases pending : read < afterDelayed
    · cases stored : readDelayedInbox read with
      | ok m =>
        rw [if_pos ⟨pending, rfl⟩, available_next_iff stored]
        refine and_congr_left fun _ => ?_
        omega
      | error e =>
        rw [if_neg fun both => nomatch both.2]
        have missing : ¬ Available readDelayedInbox read afterDelayed := by
          intro available
          obtain ⟨m, found⟩ := available read le_rfl pending
          rw [stored] at found
          contradiction
        simp only [missing, and_false]
    · rw [if_neg fun both => pending both.1]
      have vacuous : Available readDelayedInbox read afterDelayed := available_of_le (not_lt.mp pending)
      simp only [vacuous, and_true]
      omega
  constructor
  · intro hidden pre unknown post split isUnknown
    obtain ⟨silent, enough, available, _⟩ :=
      hidden (seg :: pre) unknown post (by rw [split]; rfl) isUnknown
    obtain ⟨enough, available⟩ := (same pre).mp ⟨enough, available⟩
    exact ⟨silent, enough, available, .inl trivial⟩
  · intro hidden pre unknown post split isUnknown
    cases pre with
    | nil =>
      obtain ⟨rfl, rfl⟩ := List.cons.inj split
      rw [known] at isUnknown
      contradiction
    | cons first pre =>
      obtain ⟨rfl, rfl⟩ := List.cons.inj split
      obtain ⟨silent, enough, available, _⟩ := hidden pre unknown post rfl isUnknown
      obtain ⟨enough, available⟩ := (same pre).mpr ⟨enough, available⟩
      refine ⟨silent, enough, available, .inr ?_⟩
      rw [List.any_cons, message]
      rfl

/-- A segment that the feed turns into a message, and the delayed count after it. -/
theorem nothingHidden_message (known : isUnknown seg = false) (message : keepsOpen seg = true) :
    NothingHidden readDelayedInbox afterDelayed emitted (seg :: rest) read ↔
      NothingHidden readDelayedInbox afterDelayed True rest
        (if isDelayedSegment seg ∧ read < afterDelayed ∧ (readDelayedInbox read).toOption.isSome
          then read + 1 else read) := by
  cases isDelayed : isDelayedSegment seg with
  | false => simpa using nothingHidden_l2 known message isDelayed
  | true => exact nothingHidden_delayed known message isDelayed (by simp)

/-- An unknown segment at the front. -/
theorem nothingHidden_unknown (unknown : isUnknown seg = true) :
    NothingHidden readDelayedInbox afterDelayed emitted (seg :: rest) read ↔
      rest.any keepsOpen = false ∧ afterDelayed ≤ read ∧ emitted := by
  constructor
  · intro hidden
    obtain ⟨silent, enough, _, shown⟩ := hidden [] seg rest rfl unknown
    exact ⟨silent, enough, shown.resolve_right (by simp)⟩
  · rintro ⟨silent, enough, shown⟩ pre other post split _
    refine ⟨?_, by omega, available_of_le enough, .inl shown⟩
    cases pre with
    | nil =>
      obtain ⟨_, rfl⟩ := List.cons.inj split
      exact silent
    | cons first pre =>
      obtain ⟨_, rfl⟩ := List.cons.inj split
      rw [List.append_eq, List.any_append, List.any_cons, Bool.or_eq_false_iff,
        Bool.or_eq_false_iff] at silent
      exact silent.2.2

theorem nothingHidden_skipped [Externals] (read : Nat) (rest : List Bytes) (ts bn : UInt64) :
    NothingHidden readDelayedInbox afterDelayed emitted (Walk.skip read rest ts bn).rest read ↔
      NothingHidden readDelayedInbox afterDelayed emitted rest read :=
  iff_of_eq (Walk.skip_invariant (fun rest _ _ => NothingHidden readDelayedInbox afterDelayed emitted rest read)
    (fun _ _ _ => propext (nothingHidden_skip rfl rfl rfl))
    (fun _ _ _ _ => propext (nothingHidden_skip rfl rfl rfl))
    (fun _ _ _ _ => propext (nothingHidden_skip rfl rfl rfl)) read rest ts bn)

/-- A batch that stays open has something left to emit in front of any unknown segment. -/
theorem nothingHidden_unfinished {seq : SequencerMessage} {walk : Walk}
    (unfinished : walk.finished seq = false) :
    NothingHidden readDelayedInbox seq.afterDelayedMessages True walk.rest walk.delayedRead ↔
      NothingHidden readDelayedInbox seq.afterDelayedMessages emitted walk.rest walk.delayedRead := by
  constructor
  · intro hidden pre seg post split unknown
    obtain ⟨silent, enough, available, _⟩ := hidden pre seg post split unknown
    refine ⟨silent, enough, available, .inr ?_⟩
    by_contra none
    rw [Bool.not_eq_true] at none
    have noDelayed : pre.countP isDelayedSegment = 0 := by
      rw [List.countP_eq_zero]
      intro other member isDelayed
      have closed := List.any_eq_false.mp none other member
      cases other with
      | nil => contradiction
      | cons kind body =>
        simp only [isDelayedSegment, decide_eq_true_eq] at isDelayed
        simp [keepsOpen, isDelayed] at closed
    have closed : keepsOpen seg = false := by
      cases seg with
      | nil => rfl
      | cons kind body =>
        simp only [isUnknown, decide_eq_true_eq] at unknown
        have apart (known : UInt8) (low : known ≤ batchSegmentKindAdvanceL1BlockNumber) : kind ≠ known := by
          rintro rfl
          exact absurd unknown (UInt8.not_lt.mpr low)
        simp [keepsOpen, apart batchSegmentKindL2Message (by decide),
          apart batchSegmentKindL2MessageBrotli (by decide),
          apart batchSegmentKindDelayedMessages (by decide)]
    have done : walk.finished seq = true := by
      rw [Walk.finished_iff, split, List.any_append, List.any_cons, none, closed, silent]
      exact ⟨by omega, rfl⟩
    rw [done] at unfinished
    contradiction
  · intro hidden pre seg post split unknown
    obtain ⟨silent, enough, available, _⟩ := hidden pre seg post split unknown
    exact ⟨silent, enough, available, .inl trivial⟩

theorem nothingHidden_finished {seq : SequencerMessage} {walk : Walk}
    (finished : walk.finished seq = true) :
    NothingHidden readDelayedInbox seq.afterDelayedMessages True walk.rest walk.delayedRead := by
  obtain ⟨drained, silent⟩ := Walk.finished_iff.mp finished
  intro pre seg post split _
  rw [split, List.any_append, List.any_cons, Bool.or_eq_false_iff, Bool.or_eq_false_iff] at silent
  exact ⟨silent.2.2, by omega, fun i start stop => by omega, .inl trivial⟩

/-- What a submessage does, by its kind. -/
theorem segmentMessage_kinds [Externals] {seq : SequencerMessage} {seg : Bytes}
    (readDelayedInbox : Nat → Except Error L1IncomingMessage) (hash : Option B256)
    (ts bn : UInt64) (read : Nat) (ordered : BoundsOrdered seq) (submessage : isSubmessage seg = true) :
    (isUnknown seg = true ∧
      segmentMessage seq hash readDelayedInbox ts bn read seg = .ok (.ok none, read)) ∨
    (isUnknown seg = false ∧ keepsOpen seg = true ∧ ∃ result,
      segmentMessage seq hash readDelayedInbox ts bn read seg =
        .ok (result, if isDelayedSegment seg ∧ read < seq.afterDelayedMessages ∧
          (readDelayedInbox read).toOption.isSome then read + 1 else read) ∧
      result ≠ .ok none) := by
  cases seg with
  | nil => contradiction
  | cons kind body =>
    simp only [isSubmessage, Bool.and_eq_true, decide_eq_true_eq] at submessage
    by_cases known : kind ≤ batchSegmentKindAdvanceL1BlockNumber
    · right
      have notUnknown : isUnknown (kind :: body) = false := by simpa [isUnknown] using known
      refine ⟨notUnknown, ?_⟩
      have l2 (isL2 : kind = batchSegmentKindL2Message ∨ kind = batchSegmentKindL2MessageBrotli) :
          ∃ result, segmentMessage seq hash readDelayedInbox ts bn read (kind :: body) =
            .ok (result, read) ∧ result ≠ .ok none := by
        rw [segmentMessage_l2 seq hash _ ts bn read body ordered isL2]
        cases l2Payload kind body with
        | none => exact ⟨_, rfl, by simp⟩
        | some payload => exact ⟨_, rfl, by simp⟩
      rcases known_kind known with isL2 | isBrotli | isDelayed | isTimestamp | isBlock
      · subst isL2
        exact ⟨rfl, l2 (.inl rfl)⟩
      · subst isBrotli
        exact ⟨rfl, l2 (.inr rfl)⟩
      · subst isDelayed
        refine ⟨rfl, ?_⟩
        rw [segmentMessage_delayed]
        by_cases pending : read < seq.afterDelayedMessages
        · rw [if_neg (by omega)]
          cases stored : readDelayedInbox read with
          | error e => exact ⟨.error e, by simp [Except.toOption], by simp⟩
          | ok m =>
            exact ⟨.ok (some ⟨⟨m, read + 1⟩, none, none⟩), by rw [if_pos ⟨rfl, pending, rfl⟩], by simp⟩
        · rw [if_pos (by omega), if_neg fun all => pending all.2.1]
          exact ⟨_, rfl, by simp⟩
      · exact absurd isTimestamp submessage.1
      · exact absurd isBlock submessage.2
    · left
      have unknown := UInt8.not_le.mp known
      exact ⟨by simpa [isUnknown] using unknown,
        segmentMessage_unknown seq hash _ ts bn read body unknown⟩

namespace Feed
variable [Externals]

/-- Header bounds in order, for every batch that is still to come. -/
def Ordered : Feed → Prop
  | between batches _ => ∀ b ∈ batches, ∀ seq,
      parseSequencerMessage b.serialized = .ok seq → BoundsOrdered seq
  | within _ later seq _ => BoundsOrdered seq ∧ ∀ b ∈ later, ∀ seq,
      parseSequencerMessage b.serialized = .ok seq → BoundsOrdered seq

/-- Nothing is left of the last batch. -/
def Ended (feed : Feed) : Prop := ∃ read, feed = between [] read

/-- An answer that the stream has ended is true. -/
def TrueEnd (readDelayedInbox : Nat → Except Error L1IncomingMessage) (feed : Feed) : Prop :=
  ∀ feed', feed.pop readDelayedInbox = .ok none feed' → feed'.Ended

def next (readDelayedInbox : Nat → Except Error L1IncomingMessage) (feed : Feed) : Feed :=
  Outcome.final (feed.pop readDelayedInbox)

def HidesNothing (readDelayedInbox : Nat → Except Error L1IncomingMessage) : Feed → Prop
  | between batches read => NitroRs.HidesNothing readDelayedInbox batches read
  | within _ later seq walk =>
      NothingHidden readDelayedInbox seq.afterDelayedMessages (later = []) walk.rest
        walk.delayedRead ∧
      (Available readDelayedInbox walk.delayedRead seq.afterDelayedMessages →
        NitroRs.HidesNothing readDelayedInbox later seq.afterDelayedMessages)

end Feed

/-- After a message, the rest of the batch hides nothing exactly when the feed does. -/
theorem hidesNothing_afterSegment [Externals] {batch : SequencerInboxBatch}
    {later : List SequencerInboxBatch} {seq : SequencerMessage} (walk : Walk) {start : Nat}
    (available : Available readDelayedInbox start seq.afterDelayedMessages ↔
      Available readDelayedInbox walk.delayedRead seq.afterDelayedMessages) :
    (NothingHidden readDelayedInbox seq.afterDelayedMessages True walk.rest walk.delayedRead ∧
      (Available readDelayedInbox start seq.afterDelayedMessages →
        HidesNothing readDelayedInbox later seq.afterDelayedMessages)) ↔
      (Feed.afterSegment batch later seq walk).HidesNothing readDelayedInbox := by
  rw [available, Feed.afterSegment]
  cases finished : walk.finished seq with
  | true =>
    have vacuous : Available readDelayedInbox walk.delayedRead seq.afterDelayedMessages :=
      available_of_le (Walk.finished_iff.mp finished).1
    have hidden : NothingHidden readDelayedInbox seq.afterDelayedMessages True walk.rest
        walk.delayedRead := nothingHidden_finished finished
    simp only [if_true, Feed.HidesNothing, hidden, vacuous, true_and, forall_const]
  | false =>
    simp only [Bool.false_eq_true, if_false, Feed.HidesNothing]
    rw [nothingHidden_unfinished finished]

theorem trueEnd_of_message [Externals] {feed feed' : Feed}
    {result : Except Error (Option MessageWithMetadataAndBlockInfo)}
    (popped : feed.pop readDelayedInbox = Outcome.lift result feed') (message : result ≠ .ok none) :
    feed.TrueEnd readDelayedInbox ∧ feed.next readDelayedInbox = feed' := by
  refine ⟨fun last ended => ?_, by rw [Feed.next, popped, Outcome.final_lift]⟩
  rw [popped, Outcome.lift_eq_ok] at ended
  exact absurd ended.1 message

/-- The segment that the feed reads next, virtual or not, stands in front of the rest. -/
theorem nothingHidden_segment (walk : Walk) :
    NothingHidden readDelayedInbox afterDelayed emitted walk.rest read ↔
      NothingHidden readDelayedInbox afterDelayed emitted (walk.segment :: walk.rest.tail) read := by
  cases rest : walk.rest with
  | nil =>
    have virtual : walk.segment = [batchSegmentKindDelayedMessages] := Walk.segment_nil rest
    rw [virtual, List.tail_nil]
    exact iff_of_true nothingHidden_nil ((nothingHidden_message rfl rfl).mpr nothingHidden_nil)
  | cons seg tail =>
    have here : walk.segment = seg := Walk.segment_cons rest
    rw [here, List.tail_cons]

theorem segment_submessage [Externals] (walk : Walk) : isSubmessage walk.skipped.segment = true := by
  rcases walk.skipped_stops with empty | ⟨seg, tail, front, submessage⟩
  · rw [Walk.segment_nil empty]
    rfl
  · rwa [Walk.segment_cons front]

/-- One `pop` within a batch: either it emits, or it meets an unknown segment. -/
theorem within_hidesNothing [Externals]
    (readDelayedInbox : Nat → Except Error L1IncomingMessage) (batch : SequencerInboxBatch)
    (later : List SequencerInboxBatch) {seq : SequencerMessage} (walk : Walk) (ordered : BoundsOrdered seq) :
    (Feed.within batch later seq walk).HidesNothing readDelayedInbox ↔
      (Feed.within batch later seq walk).TrueEnd readDelayedInbox ∧
      ((Feed.within batch later seq walk).next readDelayedInbox).HidesNothing readDelayedInbox := by
  rw [Feed.HidesNothing, ← nothingHidden_skipped walk.delayedRead walk.rest walk.timestamp
    walk.blockNumber]
  change NothingHidden _ _ _ walk.skipped.rest _ ∧ _ ↔ _
  rw [nothingHidden_segment walk.skipped]
  rcases segmentMessage_kinds readDelayedInbox (some batch.blockHash) walk.skipped.timestamp
    walk.skipped.blockNumber walk.delayedRead ordered (segment_submessage walk) with
    ⟨unknown, emitted⟩ | ⟨known, message, result, emitted, shown⟩
  · have popped := popWithin_eq later emitted
    have next : (Feed.within batch later seq walk).next readDelayedInbox =
        Feed.afterSegment batch later seq (walk.skipped.next walk.delayedRead) := by
      rw [Feed.next, popped, Outcome.final_lift]
    have trueEnd : (Feed.within batch later seq walk).TrueEnd readDelayedInbox ↔
        (Feed.afterSegment batch later seq (walk.skipped.next walk.delayedRead)).Ended := by
      constructor
      · exact fun honest => honest _ popped
      · intro ended feed' answer
        rw [popped] at answer
        exact (Outcome.lift_eq_ok.mp answer).2 ▸ ended
    rw [nothingHidden_unknown unknown, trueEnd, next, Feed.afterSegment]
    have closes : (walk.skipped.next walk.delayedRead).finished seq = true ↔
        seq.afterDelayedMessages ≤ walk.delayedRead ∧ walk.skipped.rest.tail.any keepsOpen = false :=
      Walk.finished_iff
    by_cases finished : (walk.skipped.next walk.delayedRead).finished seq
    · obtain ⟨drained, silent⟩ := closes.mp finished
      rw [if_pos finished]
      constructor
      · rintro ⟨⟨_, _, rfl⟩, _⟩
        exact ⟨⟨_, rfl⟩, trivial⟩
      · rintro ⟨⟨read, ended⟩, hidden⟩
        cases ended
        exact ⟨⟨silent, drained, rfl⟩, fun _ => hidden⟩
    · rw [if_neg finished]
      constructor
      · rintro ⟨⟨silent, drained, _⟩, _⟩
        exact absurd (closes.mpr ⟨drained, silent⟩) finished
      · rintro ⟨⟨read, ended⟩, _⟩
        exact nomatch ended
  · obtain ⟨trueEnd, next⟩ := trueEnd_of_message (popWithin_eq later emitted) shown
    rw [nothingHidden_message known message, next]
    simp only [trueEnd, true_and]
    exact hidesNothing_afterSegment (walk.skipped.next _) available_step

/-- One `pop` of a feed: it hides nothing exactly when its answer is true and the
feed that follows hides nothing. -/
theorem Feed.hidesNothing_step [Externals] {feed : Feed} (ordered : feed.Ordered) :
    feed.HidesNothing readDelayedInbox ↔
      feed.TrueEnd readDelayedInbox ∧ (feed.next readDelayedInbox).HidesNothing readDelayedInbox := by
  cases feed with
  | within batch later seq walk => exact within_hidesNothing _ batch later walk ordered.1
  | between batches read =>
    cases batches with
    | nil =>
      refine ⟨fun _ => ⟨fun last ended => ?_, trivial⟩, fun _ => trivial⟩
      cases ended
      exact ⟨read, rfl⟩
    | cons batch later =>
      cases parsed : parseSequencerMessage batch.serialized with
      | error e =>
        have popped : (Feed.between (batch :: later) read).pop readDelayedInbox =
            .error e (.between (batch :: later) read) := by
          simp only [Feed.pop, parsed]
        have vacuous : NitroRs.HidesNothing readDelayedInbox (batch :: later) read := by
          intro seq found
          rw [parsed] at found
          contradiction
        refine iff_of_true vacuous ⟨fun last ended => ?_, ?_⟩
        · rw [popped] at ended
          contradiction
        · rw [Feed.next, popped]
          exact vacuous
      | ok seq =>
        have opened : (Feed.between (batch :: later) read).pop readDelayedInbox =
            (Feed.within batch later seq ⟨seq.segments, 0, 0, read⟩).pop readDelayedInbox := by
          simp only [Feed.pop, parsed]
        have within := within_hidesNothing readDelayedInbox batch later ⟨seq.segments, 0, 0, read⟩
          (ordered batch List.mem_cons_self seq parsed)
        rw [Feed.TrueEnd, Feed.next, opened]
        refine Iff.trans ⟨fun hidden => hidden seq parsed, fun hidden seq' parsed' => ?_⟩ within
        cases parsed.symm.trans parsed'
        exact hidden

theorem Feed.next_ordered [Externals] {feed : Feed} (ordered : feed.Ordered) :
    (feed.next readDelayedInbox).Ordered := by
  have after {batch : SequencerInboxBatch} {later : List SequencerInboxBatch}
      {seq : SequencerMessage} {walk : Walk}
      (ordered : (Feed.within batch later seq walk).Ordered) :
      ((Feed.within batch later seq walk).next readDelayedInbox).Ordered := by
    rw [Feed.next, Feed.pop, Feed.popWithin]
    split
    · exact ordered
    · rw [Outcome.final_lift, Feed.afterSegment]
      split
      · exact ordered.2
      · exact ordered
  cases feed with
  | within batch later seq walk => exact after ordered
  | between batches read =>
    cases batches with
    | nil => exact ordered
    | cons batch later =>
      cases parsed : parseSequencerMessage batch.serialized with
      | error e =>
        have stays : (Feed.between (batch :: later) read).next readDelayedInbox =
            .between (batch :: later) read := by
          simp only [Feed.next, Feed.pop, parsed, Outcome.final_error]
        rw [stays]
        exact ordered
      | ok seq =>
        have opened : (Feed.between (batch :: later) read).next readDelayedInbox =
            (Feed.within batch later seq ⟨seq.segments, 0, 0, read⟩).next readDelayedInbox := by
          simp only [Feed.next, Feed.pop, parsed]
        rw [opened]
        exact after ⟨ordered batch List.mem_cons_self seq parsed,
          fun b member => ordered b (List.mem_cons_of_mem _ member)⟩

/-- A feed that makes no progress is at the end, at a batch that does not parse,
or waits for a delayed message that is not there. -/
theorem Feed.stuck_hidesNothing [Externals] {feed : Feed} (ordered : feed.Ordered) :
    (feed.next readDelayedInbox).steps < feed.steps ∨ feed.HidesNothing readDelayedInbox := by
  have within (batch : SequencerInboxBatch) (later : List SequencerInboxBatch)
      {seq : SequencerMessage} (walk : Walk) (ordered : BoundsOrdered seq) :
      ((Feed.within batch later seq walk).next readDelayedInbox).steps <
          (Feed.within batch later seq walk).steps ∨
        (Feed.within batch later seq walk).HidesNothing readDelayedInbox := by
    obtain ⟨result, read, emitted⟩ : ∃ result read, segmentMessage seq (some batch.blockHash)
        readDelayedInbox walk.skipped.timestamp walk.skipped.blockNumber walk.delayedRead
        walk.skipped.segment = .ok (result, read) := by
      rcases segmentMessage_kinds readDelayedInbox (some batch.blockHash) walk.skipped.timestamp
        walk.skipped.blockNumber walk.delayedRead ordered (segment_submessage walk) with
      ⟨_, emitted⟩ | ⟨_, _, result, emitted, _⟩
      · exact ⟨_, _, emitted⟩
      · exact ⟨_, _, emitted⟩
    rw [Feed.next, popWithin_eq later emitted, Outcome.final_lift]
    rcases afterSegment_steps later emitted with fewer | ⟨empty, pending, e, missing, _⟩
    · exact .inl fewer
    · right
      constructor
      · rw [← nothingHidden_skipped walk.delayedRead walk.rest walk.timestamp walk.blockNumber]
        change NothingHidden _ _ _ walk.skipped.rest _
        rw [empty]
        exact nothingHidden_nil
      · intro available
        obtain ⟨m, found⟩ := available _ le_rfl pending
        rw [missing] at found
        contradiction
  cases feed with
  | within batch later seq walk => exact within batch later walk ordered.1
  | between batches read =>
    cases batches with
    | nil => exact .inr trivial
    | cons batch later =>
      cases parsed : parseSequencerMessage batch.serialized with
      | error e =>
        right
        intro seq found
        rw [parsed] at found
        contradiction
      | ok seq =>
        have opened : (Feed.between (batch :: later) read).next readDelayedInbox =
            (Feed.within batch later seq ⟨seq.segments, 0, 0, read⟩).next readDelayedInbox := by
          simp only [Feed.next, Feed.pop, parsed]
        rcases within batch later ⟨seq.segments, 0, 0, read⟩
          (ordered batch List.mem_cons_self seq parsed) with fewer | hidden
        · left
          rw [opened]
          have fits := steps_of_parse parsed
          simp only [Feed.steps, List.length_cons, Nat.add_mul, Nat.one_mul] at fewer ⊢
          omega
        · right
          intro seq' parsed'
          cases parsed.symm.trans parsed'
          exact hidden

/-- Nothing is cached and the backend has no batch left. -/
def InboxMultiplexer.Exhausted (mux : InboxMultiplexer) : Prop :=
  mux.cachedMsg = none ∧ mux.backend.batches.length ≤ mux.backend.batchIdx

theorem exhausted_iff {mux : InboxMultiplexer} {feed : Feed}
    (tracks : Tracks readDelayedInbox mux feed) : mux.Exhausted ↔ feed.Ended := by
  cases tracks with
  | @between batches read _ cached drop =>
    constructor
    · rintro ⟨_, past⟩
      rw [List.drop_eq_nil_of_le past] at drop
      exact ⟨read, by rw [drop]⟩
    · rintro ⟨read', same⟩
      cases same
      exact ⟨cached, List.drop_eq_nil_iff.mp drop⟩
  | within _ cached =>
    constructor
    · rintro ⟨none, _⟩
      rw [cached] at none
      contradiction
    · rintro ⟨read, same⟩
      exact nomatch same

/-- The multiplexer after a number of `pop`s, whatever they answered. -/
def InboxMultiplexer.afterPops [Externals] (n : Nat) (mux : InboxMultiplexer) : InboxMultiplexer :=
  (fun mux => Outcome.final mux.pop)^[n] mux

theorem next_tracks [Externals] {mux : InboxMultiplexer} {feed : Feed}
    (tracks : Tracks readDelayedInbox mux feed) :
    Tracks readDelayedInbox (Outcome.final mux.pop) (feed.next readDelayedInbox) := by
  have popped := pop_refines tracks
  rw [Feed.next]
  revert popped
  cases mux.pop <;> cases feed.pop readDelayedInbox
  case ok.ok => exact And.right
  case error.error => exact And.right
  all_goals exact False.elim

theorem trueEnd_iff [Externals] {mux : InboxMultiplexer} {feed : Feed}
    (tracks : Tracks readDelayedInbox mux feed) :
    (∀ mux', mux.pop = .ok none mux' → mux'.Exhausted) ↔ feed.TrueEnd readDelayedInbox := by
  have popped := pop_refines tracks
  rw [Feed.TrueEnd]
  revert popped
  cases mux.pop with
  | error e mux' =>
    cases feed.pop readDelayedInbox with
    | error e' feed' => exact fun _ => iff_of_true nofun nofun
    | ok b feed' => exact False.elim
  | ok a mux' =>
    cases feed.pop readDelayedInbox with
    | error e' feed' => exact False.elim
    | ok b feed' =>
      rintro ⟨rfl, tracks⟩
      have same := exhausted_iff tracks
      constructor
      · rintro honest last ⟨⟩
        exact same.mp (honest mux' rfl)
      · rintro honest last ⟨⟩
        exact same.mpr (honest feed' rfl)

/-- In every run from the start of a window, the multiplexer answers that the
stream has ended only when it has, exactly when no batch hides anything. -/
theorem pop_none_exhausted_iff [Externals] {batches : List SequencerInboxBatch} {read : Nat}
    (ordered : ∀ b ∈ batches, ∀ seq, parseSequencerMessage b.serialized = .ok seq →
      BoundsOrdered seq) :
    (∀ n mux, ((InboxMultiplexer.new ⟨batches, 0, 0, readDelayedInbox⟩ read).afterPops n).pop =
      .ok none mux → mux.Exhausted) ↔ HidesNothing readDelayedInbox batches read := by
  have related (n : Nat) := Runs.iterate_related next_tracks
    (show Tracks readDelayedInbox _ _ from new_tracks batches read) n
  have answers (n : Nat) :
      (∀ mux, ((InboxMultiplexer.new ⟨batches, 0, 0, readDelayedInbox⟩ read).afterPops n).pop =
        .ok none mux → mux.Exhausted) ↔
      ((Feed.next readDelayedInbox)^[n] (.between batches read)).TrueEnd readDelayedInbox := by
    exact trueEnd_iff (related n)
  simp only [answers]
  exact @Runs.forall_iterate_iff Feed (Feed.next readDelayedInbox) _ Feed.Ordered _ _ Feed.steps
    (fun _ => Feed.next_ordered) (fun _ => Feed.hidesNothing_step)
    (fun _ => Feed.stuck_hidesNothing) ordered

section Samples
open Codecs

/-- A batch that ends with an unknown segment, behind all its messages. -/
theorem trailing_unknown_ends_stream :
    HidesNothing (fun _ => .ok ⟨⟨3, .zero, 0, 0, none, 0⟩, [], none⟩)
      [batch 0 1 [[0, 7], [2], [5]]] 0 ∧
    ∀ n mux, ((InboxMultiplexer.new ⟨[batch 0 1 [[0, 7], [2], [5]]], 0, 0,
      fun _ => .ok ⟨⟨3, .zero, 0, 0, none, 0⟩, [], none⟩⟩ 0).afterPops n).pop = .ok none mux →
        mux.Exhausted := by
  have parsed := parse_batch 0 (show 1 < 2 ^ 64 by decide)
    (show [[0, 7], [2], [5]].length ≤ segmentCap + 1 by decide)
  have hidesNothing : HidesNothing (fun _ => .ok ⟨⟨3, .zero, 0, 0, none, 0⟩, [], none⟩)
      [batch 0 1 [[0, 7], [2], [5]]] 0 := by
    intro seq found
    cases parsed.symm.trans found
    refine ⟨?_, fun _ => trivial⟩
    rw [nothingHidden_message rfl rfl, nothingHidden_message rfl rfl, nothingHidden_unknown rfl]
    exact ⟨rfl, by decide, trivial⟩
  refine ⟨hidesNothing, (pop_none_exhausted_iff ?_).mpr hidesNothing⟩
  intro b member seq found
  rw [List.mem_singleton.mp member, parsed] at found
  cases found
  exact ⟨by decide, by decide⟩

/-- A segment of an unknown kind ends the stream in front of an L2 message. -/
theorem hidden_segment_ends_stream : ¬ ∀ n mux, ((InboxMultiplexer.new
    ⟨[batch 0 0 [[5], [0, 7]]], 0, 0, fun _ => .error .notFound⟩ 0).afterPops n).pop =
      .ok none mux → mux.Exhausted := by
  intro honest
  have exhausted := honest 0 _ rfl
  revert exhausted
  unfold InboxMultiplexer.Exhausted
  decide

end Samples

end NitroRs
