import NitroRs.Poster.SegmentSource

/-! Payloads as segments. A segment starts with its kind, and the payload of a message
is handed on without one: its first byte stands for a kind. A payload that is taken for
no message leaves its message to be given later, if it is a delayed one. -/
namespace NitroRs
open Answers TransactionStreamer

/-- The messages with the delayed count in front of each. -/
def withCountBefore : Nat → List MessageWithMetadata → List (Nat × MessageWithMetadata)
  | _, [] => []
  | read, m :: ms => (read, m) :: withCountBefore m.delayedMessagesRead ms

/-- The delayed count behind the messages. -/
def countAfter : Nat → List MessageWithMetadata → Nat
  | read, [] => read
  | _, m :: ms => countAfter m.delayedMessagesRead ms

def IsDelayed (p : Nat × MessageWithMetadata) : Prop := p.2.delayedMessagesRead = p.1 + 1

/-- The delayed inbox has the delayed messages among the given ones. -/
def HasDelayedOf (readDelayedInbox : Nat → Except Error L1IncomingMessage) (read : Nat)
    (ms : List MessageWithMetadata) : Prop :=
  ∀ p ∈ withCountBefore read ms, IsDelayed p → readDelayedInbox p.1 = .ok p.2.message

theorem read_add_length {read : Nat} {ms : List MessageWithMetadata}
    (delayed : ∀ p ∈ withCountBefore read ms, IsDelayed p) :
    countAfter read ms = read + ms.length := by
  induction ms generalizing read with
  | nil => rfl
  | cons m ms ih =>
    rw [withCountBefore, List.forall_mem_cons] at delayed
    have next : m.delayedMessagesRead = read + 1 := delayed.1
    rw [countAfter, ih delayed.2, next, List.length_cons]
    omega

section
variable [Externals]

/-- A segment that says what the message is, behind the given delayed count. -/
def Spells (p : Nat × MessageWithMetadata) : Bytes → Prop
  | [] => False
  | kind :: body =>
    kind = batchSegmentKindL2Message ∧ body = payload p.2 ∧ p.2.delayedMessagesRead = p.1 ∨
    kind = batchSegmentKindL2MessageBrotli ∧ brotliDecompress body = some (payload p.2) ∧
      p.2.delayedMessagesRead = p.1 ∨
    kind = batchSegmentKindDelayedMessages ∧ IsDelayed p

/-- The segments that stand for a message spell the first messages, and only delayed
messages come behind these. -/
structure Carries (read : Nat) (ms : List MessageWithMetadata) (segs : List Bytes) : Prop where
  spelled : List.Forall₂ Spells ((withCountBefore read ms).take (segs.filter isSubmessage).length)
    (segs.filter isSubmessage)
  rest : ∀ p ∈ (withCountBefore read ms).drop (segs.filter isSubmessage).length, IsDelayed p

variable {read : Nat} {m : MessageWithMetadata} {ms : List MessageWithMetadata} {seg : Bytes}
  {segs : List Bytes}

theorem carries_nil : Carries read ms [] ↔ ∀ p ∈ withCountBefore read ms, IsDelayed p :=
  ⟨fun carries => carries.rest, fun rest => ⟨.nil, rest⟩⟩

theorem carries_skip (quiet : isSubmessage seg = false) :
    Carries read ms (seg :: segs) ↔ Carries read ms segs := by
  have same : (seg :: segs).filter isSubmessage = segs.filter isSubmessage :=
    List.filter_cons_of_neg (by simp [quiet])
  constructor
  · rintro ⟨spelled, rest⟩
    exact ⟨same ▸ spelled, same ▸ rest⟩
  · rintro ⟨spelled, rest⟩
    exact ⟨same.symm ▸ spelled, same.symm ▸ rest⟩

theorem carries_cons (submessage : isSubmessage seg = true) : Carries read (m :: ms) (seg :: segs) ↔
    Spells (read, m) seg ∧ Carries m.delayedMessagesRead ms segs := by
  have more : (seg :: segs).filter isSubmessage = seg :: segs.filter isSubmessage :=
    List.filter_cons_of_pos submessage
  constructor
  · rintro ⟨spelled, rest⟩
    rw [more, withCountBefore, List.length_cons] at spelled rest
    rw [List.take_succ_cons, List.forall₂_cons] at spelled
    exact ⟨spelled.1, spelled.2, rest⟩
  · rintro ⟨first, spelled, rest⟩
    refine ⟨?_, ?_⟩
    · rw [more, withCountBefore, List.length_cons, List.take_succ_cons, List.forall₂_cons]
      exact ⟨first, spelled⟩
    · rw [more, withCountBefore, List.length_cons]
      exact rest

theorem Spells.read_le {p : Nat × MessageWithMetadata} (spells : Spells p seg) :
    p.1 ≤ p.2.delayedMessagesRead := by
  match seg, spells with
  | _ :: _, .inl ⟨_, _, same⟩ => exact same.ge
  | _ :: _, .inr (.inl ⟨_, _, same⟩) => exact same.ge
  | _ :: _, .inr (.inr ⟨_, next⟩) =>
    rw [next]
    exact Nat.le_succ _

theorem Carries.read_le (carries : Carries read ms segs) : read ≤ countAfter read ms := by
  induction segs generalizing read ms with
  | nil =>
    rw [read_add_length (carries_nil.mp carries)]
    exact Nat.le_add_right _ _
  | cons seg segs ih =>
    cases submessage : isSubmessage seg with
    | false => exact ih ((carries_skip submessage).mp carries)
    | true =>
      cases ms with
      | nil => exact le_rfl
      | cons m ms =>
        obtain ⟨spells, later⟩ := (carries_cons submessage).mp carries
        exact spells.read_le.trans (ih later)

end

/-- What the round trip has to bring back of a message. -/
def payloadAndCount (m : MessageWithMetadata) : Bytes × Nat := (payload m, m.delayedMessagesRead)

/-- Answers that the drain loop turns into the given messages. -/
def Gives (answers : List Answer) (ms : List MessageWithMetadata) : Prop :=
  ∃ out, drained answers = .ok out ∧
    out.map (fun m => payloadAndCount m.messageWithMeta) = ms.map payloadAndCount

section Gives
variable {x : MessageWithMetadataAndBlockInfo} {m : MessageWithMetadata} {ms : List MessageWithMetadata}
  {answers : List Answer}

theorem gives_nil : Gives [] ms ↔ ms = [] := by
  constructor
  · rintro ⟨out, ran, same⟩
    cases ran
    exact List.map_eq_nil_iff.mp same.symm
  · rintro rfl
    exact ⟨[], rfl, rfl⟩

theorem gives_none : Gives (.ok none :: answers) ms ↔ ms = [] := gives_nil

theorem not_gives_error {e : Error} : ¬ Gives (.error e :: answers) ms := by
  rintro ⟨out, ran, -⟩
  cases ran

theorem gives_some_iff : Gives (.ok (some x) :: answers) ms ↔
    ∃ m later, ms = m :: later ∧ payloadAndCount x.messageWithMeta = payloadAndCount m ∧ Gives answers later := by
  constructor
  · rintro ⟨out, ran, same⟩
    rw [drained] at ran
    cases later : drained answers with
    | error e =>
      rw [later] at ran
      cases ran
    | ok rest =>
      rw [later] at ran
      cases ran
      cases ms with
      | nil => cases same
      | cons m ms =>
        rw [List.map_cons, List.map_cons, List.cons.injEq] at same
        exact ⟨m, ms, rfl, same.1, rest, later, same.2⟩
  · rintro ⟨m, later, rfl, first, rest, ran, same⟩
    refine ⟨x :: rest, ?_, ?_⟩
    · rw [drained, ran]
      rfl
    · rw [List.map_cons, List.map_cons, first, same]

theorem gives_cons_iff : Gives (.ok (some x) :: answers) (m :: ms) ↔
    payloadAndCount x.messageWithMeta = payloadAndCount m ∧ Gives answers ms := by
  rw [gives_some_iff]
  constructor
  · rintro ⟨_, _, same, first, later⟩
    cases same
    exact ⟨first, later⟩
  · rintro ⟨first, later⟩
    exact ⟨m, ms, rfl, first, later⟩

theorem Gives.length_le (gives : Gives answers ms) : ms.length ≤ answers.length := by
  induction answers generalizing ms with
  | nil =>
    rw [gives_nil.mp gives]
    exact le_rfl
  | cons answer answers ih =>
    match answer with
    | .error e => exact absurd gives not_gives_error
    | .ok none =>
      rw [gives_none.mp gives]
      exact Nat.zero_le _
    | .ok (some x) =>
      obtain ⟨m, later, rfl, -, gives⟩ := gives_some_iff.mp gives
      exact Nat.succ_le_succ (ih gives)

end Gives

section Pending
variable {readDelayedInbox : Nat → Except Error L1IncomingMessage} {read : Nat}
  {ms : List MessageWithMetadata}

/-- The pending delayed messages are the given ones exactly when these are all delayed. -/
theorem gives_pending_iff (has : HasDelayedOf readDelayedInbox read ms) :
    Gives (pending readDelayedInbox (countAfter read ms - read) read) ms ↔
      ∀ p ∈ withCountBefore read ms, IsDelayed p := by
  induction ms generalizing read with
  | nil =>
    rw [countAfter, Nat.sub_self]
    exact ⟨fun _ => nofun, fun _ => gives_nil.mpr rfl⟩
  | cons m ms ih =>
    rw [HasDelayedOf, withCountBefore, List.forall_mem_cons] at has
    rw [withCountBefore, List.forall_mem_cons, countAfter]
    by_cases next : m.delayedMessagesRead = read + 1
    · have found : readDelayedInbox read = .ok m.message := has.1 next
      have later := ih has.2
      rw [next] at later ⊢
      cases waits : countAfter (read + 1) ms - read with
      | zero =>
        refine ⟨fun gives => absurd (gives_nil.mp gives) nofun, fun delayed => ?_⟩
        have after := read_add_length delayed.2
        omega
      | succ n =>
        have same : countAfter (read + 1) ms - (read + 1) = n := by omega
        rw [same] at later
        rw [pending, found]
        dsimp only
        rw [gives_cons_iff, later]
        exact ⟨fun gives => ⟨next, gives.2⟩,
          fun delayed => ⟨Prod.ext rfl next.symm, delayed.2⟩⟩
    · refine ⟨fun gives => ?_, fun delayed => absurd delayed.1 next⟩
      cases waits : countAfter m.delayedMessagesRead ms - read with
      | zero =>
        rw [waits] at gives
        exact absurd (gives_nil.mp gives) nofun
      | succ n =>
        rw [waits, pending] at gives
        cases found : readDelayedInbox read with
        | error e =>
          rw [found] at gives
          exact absurd gives not_gives_error
        | ok delayed =>
          rw [found] at gives
          have first := (gives_cons_iff.mp gives).1
          exact absurd (congrArg Prod.snd first).symm next

end Pending

/-- Segments that are the payloads of all the messages, or fewer than these. -/
structure Behind (segs : List Bytes) (ms : List MessageWithMetadata) : Prop where
  le : segs.length ≤ ms.length
  eq : segs.length = ms.length → segs = ms.map payload

section Segments
variable [Externals] {seq : SequencerMessage} {hash : Option B256}
  {readDelayedInbox : Nat → Except Error L1IncomingMessage} {timestamp blockNumber : UInt64} {read : Nat}
  {ms : List MessageWithMetadata} {seg : Bytes} {segs : List Bytes}

omit [Externals] in
theorem Behind.skip (behind : Behind (seg :: segs) ms) : Behind segs ms := by
  have le := behind.le
  rw [List.length_cons] at le
  exact ⟨by omega, fun same => by omega⟩

omit [Externals] in
theorem Behind.tail {m : MessageWithMetadata} (behind : Behind (seg :: segs) (m :: ms)) :
    Behind segs ms := by
  refine ⟨Nat.le_of_succ_le_succ behind.le, fun same => ?_⟩
  have eq := behind.eq (congrArg Nat.succ same)
  rw [List.map_cons] at eq
  exact List.tail_eq_of_cons_eq eq

/-- Once no delayed message is pending, a segment answers at most once. -/
theorem length_segments_le (drained : seq.afterDelayedMessages ≤ read) :
    (segments seq hash readDelayedInbox segs timestamp blockNumber read).length ≤ segs.length := by
  induction segs generalizing timestamp blockNumber with
  | nil =>
    have none : seq.afterDelayedMessages - read = 0 := by omega
    rw [segments, none]
    exact le_rfl
  | cons seg segs ih =>
    cases submessage : isSubmessage seg with
    | false =>
      obtain ⟨timestamp', blockNumber', same⟩ := segments_skipped segs timestamp blockNumber read submessage
      rw [same]
      exact ih.trans (Nat.le_succ _)
    | true =>
      rw [segments_submessage submessage]
      cases answered : segmentMessage seq hash readDelayedInbox timestamp blockNumber read seg with
      | error panic => exact Nat.succ_le_succ (Nat.zero_le _)
      | ok outcome =>
        obtain ⟨answer, read'⟩ := outcome
        obtain rfl : read' = read := by
          rcases segmentMessage_read answered with same | ⟨waits, _⟩
          · exact same
          · omega
        exact Nat.succ_le_succ ih

/-- A message for a delayed segment without a pending one has no payload, and no
segment of a message in its own place spells that. -/
theorem not_gives_invalid {m : MessageWithMetadata} {body : Bytes} (drained : seq.afterDelayedMessages ≤ read)
    (behind : Behind ((batchSegmentKindDelayedMessages :: body) :: segs) (m :: ms)) :
    ¬ Gives (.ok (some ⟨⟨invalidMessage seq, seq.afterDelayedMessages⟩, hash, none⟩) ::
      segments seq hash readDelayedInbox segs timestamp blockNumber read) (m :: ms) := by
  intro gives
  obtain ⟨first, later⟩ := gives_cons_iff.mp gives
  have many : ms.length ≤ segs.length := later.length_le.trans (length_segments_le drained)
  have all := behind.eq (le_antisymm behind.le (Nat.succ_le_succ many))
  have own : batchSegmentKindDelayedMessages :: body = payload m := List.head_eq_of_cons_eq all
  have empty : [] = payload m := congrArg Prod.fst first
  rw [← own] at empty
  cases empty

section Kinds
variable {m : MessageWithMetadata} {kind : UInt8} {body : Bytes}

theorem gives_l2_iff (ordered : BoundsOrdered seq)
    (isL2 : kind = batchSegmentKindL2Message ∨ kind = batchSegmentKindL2MessageBrotli)
    (later : ∀ timestamp blockNumber, Gives (segments seq hash readDelayedInbox segs timestamp
      blockNumber m.delayedMessagesRead) ms ↔ Carries m.delayedMessagesRead ms segs) :
    Gives (segments seq hash readDelayedInbox ((kind :: body) :: segs) timestamp blockNumber read) (m :: ms) ↔
      (l2Payload kind body = some (payload m) ∧ m.delayedMessagesRead = read) ∧
        Carries m.delayedMessagesRead ms segs := by
  have submessage : isSubmessage (kind :: body) = true := by
    rcases isL2 with rfl | rfl <;> rfl
  rw [segments_submessage submessage, segmentMessage_l2 _ _ _ _ _ _ _ ordered isL2]
  cases decoded : l2Payload kind body with
  | none => exact ⟨fun gives => absurd gives not_gives_error, fun carried => by cases carried.1.1⟩
  | some content =>
    dsimp only
    rw [gives_cons_iff]
    constructor
    · rintro ⟨first, gives⟩
      obtain ⟨rfl, rfl⟩ := Prod.mk.inj first
      exact ⟨⟨rfl, rfl⟩, (later _ _).mp gives⟩
    · rintro ⟨⟨same, rfl⟩, carries⟩
      cases same
      exact ⟨rfl, (later _ _).mpr carries⟩

theorem gives_delayed_iff (found : IsDelayed (read, m) → readDelayedInbox read = .ok m.message)
    (last : seq.afterDelayedMessages = countAfter m.delayedMessagesRead ms)
    (behind : Behind ((batchSegmentKindDelayedMessages :: body) :: segs) (m :: ms))
    (later : ∀ timestamp blockNumber, Gives (segments seq hash readDelayedInbox segs timestamp
      blockNumber m.delayedMessagesRead) ms ↔ Carries m.delayedMessagesRead ms segs) :
    Gives (segments seq hash readDelayedInbox ((batchSegmentKindDelayedMessages :: body) :: segs) timestamp
        blockNumber read) (m :: ms) ↔
      IsDelayed (read, m) ∧ Carries m.delayedMessagesRead ms segs := by
  rw [segments_submessage rfl, segmentMessage_delayed]
  by_cases drained : seq.afterDelayedMessages ≤ read
  · rw [if_pos drained]
    refine ⟨fun gives => absurd gives (not_gives_invalid drained behind), fun ⟨next, carries⟩ => ?_⟩
    have next : m.delayedMessagesRead = read + 1 := next
    have reached := carries.read_le
    omega
  · rw [if_neg drained]
    cases stored : readDelayedInbox read with
    | error e =>
      refine ⟨fun gives => absurd gives not_gives_error, fun carried => ?_⟩
      rw [found carried.1] at stored
      cases stored
    | ok delayed =>
      dsimp only
      rw [gives_cons_iff]
      constructor
      · rintro ⟨first, gives⟩
        have next : read + 1 = m.delayedMessagesRead := congrArg Prod.snd first
        rw [next] at gives
        exact ⟨next.symm, (later _ _).mp gives⟩
      · rintro ⟨next, carries⟩
        have own : delayed = m.message := by simpa [found next] using stored.symm
        have next : m.delayedMessagesRead = read + 1 := next
        rw [← next]
        exact ⟨by rw [own], (later _ _).mpr carries⟩

theorem spells_l2_iff (isL2 : kind = batchSegmentKindL2Message ∨ kind = batchSegmentKindL2MessageBrotli) :
    Spells (read, m) (kind :: body) ↔
      l2Payload kind body = some (payload m) ∧ m.delayedMessagesRead = read := by
  rcases isL2 with rfl | rfl
  · simp [Spells, l2Payload, batchSegmentKindL2Message, batchSegmentKindL2MessageBrotli,
      batchSegmentKindDelayedMessages]
  · simp [Spells, l2Payload, batchSegmentKindL2Message, batchSegmentKindL2MessageBrotli,
      batchSegmentKindDelayedMessages]

theorem spells_delayed_iff :
    Spells (read, m) (batchSegmentKindDelayedMessages :: body) ↔ IsDelayed (read, m) := by
  simp [Spells, batchSegmentKindL2Message, batchSegmentKindL2MessageBrotli, batchSegmentKindDelayedMessages]

theorem not_spells_unknown (unknown : batchSegmentKindAdvanceL1BlockNumber < kind) :
    ¬ Spells (read, m) (kind :: body) := by
  rintro (⟨rfl, -⟩ | ⟨rfl, -⟩ | ⟨rfl, -⟩)
  · exact absurd unknown (by decide)
  · exact absurd unknown (by decide)
  · exact absurd unknown (by decide)

end Kinds

/-- The segments of a batch give the messages exactly when they carry them. -/
theorem gives_segments_iff (ordered : BoundsOrdered seq) (has : HasDelayedOf readDelayedInbox read ms)
    (last : seq.afterDelayedMessages = countAfter read ms) (behind : Behind segs ms) :
    Gives (segments seq hash readDelayedInbox segs timestamp blockNumber read) ms ↔ Carries read ms segs := by
  induction segs generalizing timestamp blockNumber read ms with
  | nil =>
    rw [segments, last, gives_pending_iff has, carries_nil]
  | cons seg segs ih =>
    cases submessage : isSubmessage seg with
    | false =>
      obtain ⟨timestamp', blockNumber', same⟩ := segments_skipped segs timestamp blockNumber read submessage
      rw [same, carries_skip submessage]
      exact ih has last behind.skip
    | true =>
      cases ms with
      | nil => exact absurd behind.le (Nat.not_succ_le_zero _)
      | cons m ms =>
        rw [HasDelayedOf, withCountBefore, List.forall_mem_cons] at has
        have later (timestamp blockNumber : UInt64) : Gives (segments seq hash readDelayedInbox segs
            timestamp blockNumber m.delayedMessagesRead) ms ↔ Carries m.delayedMessagesRead ms segs :=
          ih has.2 last behind.tail
        rw [carries_cons submessage]
        cases seg with
        | nil => contradiction
        | cons kind body =>
          by_cases known : kind ≤ batchSegmentKindAdvanceL1BlockNumber
          · rcases known_kind known with isL2 | isL2 | rfl | rfl | rfl
            · rw [gives_l2_iff ordered (.inl isL2) later, spells_l2_iff (.inl isL2)]
            · rw [gives_l2_iff ordered (.inr isL2) later, spells_l2_iff (.inr isL2)]
            · rw [gives_delayed_iff has.1 last behind later, spells_delayed_iff]
            · contradiction
            · contradiction
          · rw [UInt8.not_le] at known
            rw [segments_submessage submessage, segmentMessage_unknown _ _ _ _ _ _ _ known]
            exact ⟨fun gives => absurd (gives_none.mp gives) (by simp),
              fun carried => absurd carried.1 (not_spells_unknown known)⟩

/-- A batch without a submessage and a pending delayed message gives a message without a
payload; every other batch answers for its segments. -/
theorem gives_batch_iff (ordered : BoundsOrdered seq) (has : HasDelayedOf readDelayedInbox read ms)
    (last : seq.afterDelayedMessages = countAfter read ms) (behind : Behind seq.segments ms)
    (some : ms ≠ []) : Gives (batch seq hash readDelayedInbox read) ms ↔
      Carries read ms seq.segments ∨ ∃ m, ms = [m] ∧ payload m = [] ∧ m.delayedMessagesRead ≤ read := by
  unfold batch
  split
  · rename_i idle
    obtain ⟨drained, quiet⟩ := idle
    have bare : seq.segments.filter isSubmessage = [] := by
      rw [List.filter_eq_nil_iff]
      simpa using quiet
    have free : ¬ Carries read ms seq.segments := by
      rintro ⟨-, rest⟩
      rw [bare, List.length_nil, List.drop_zero] at rest
      have reached := read_add_length rest
      have positive := List.length_pos_iff.mpr some
      omega
    rw [gives_some_iff]
    constructor
    · rintro ⟨m, later, rfl, first, gives⟩
      rw [gives_nil.mp gives] at last
      exact .inr ⟨m, by rw [gives_nil.mp gives], (congrArg Prod.fst first).symm, last.ge.trans drained⟩
    · rintro (carries | ⟨m, rfl, empty, -⟩)
      · exact absurd carries free
      · exact ⟨m, [], rfl, Prod.ext empty.symm last, gives_nil.mpr rfl⟩
  · rename_i busy
    rw [gives_segments_iff ordered has last behind]
    refine ⟨.inl, fun carried => carried.resolve_right ?_⟩
    rintro ⟨m, rfl, empty, still⟩
    refine busy ⟨last ▸ still, ?_⟩
    have short := behind.le
    have all := behind.eq
    rw [List.map_singleton, empty] at all
    rw [List.any_eq_false]
    match segments : seq.segments with
    | [] => exact nofun
    | [seg] =>
      rw [segments] at all
      rw [all rfl]
      simp [isSubmessage]
    | _ :: _ :: _ =>
      rw [segments] at short
      simp at short

end Segments

theorem countAfter_getLast {read : Nat} {m : MessageWithMetadata} {ms : List MessageWithMetadata}
    (last : ms.getLast? = some m) : countAfter read ms = m.delayedMessagesRead := by
  induction ms generalizing read with
  | nil => cases last
  | cons first ms ih =>
    cases ms with
    | nil =>
      cases last
      rfl
    | cons second ms => exact @ih first.delayedMessagesRead (by simpa using last)

section RoundTrip
variable [Externals] {readDelayedInbox : Nat → Except Error L1IncomingMessage} {read : Nat}
  {b : SequencerInboxBatch} {seq : SequencerMessage} {ms : List MessageWithMetadata}

/-- The messages multiplexed from one batch. The iteration bound is never reached. -/
@[irreducible] def multiplexed (readDelayedInbox : Nat → Except Error L1IncomingMessage)
    (b : SequencerInboxBatch) (read : Nat) : Except Error (List MessageWithMetadataAndBlockInfo) :=
  (InboxMultiplexer.new ⟨[b], 0, 0, readDelayedInbox⟩ read).drain (Feed.batchSteps + 1)

theorem multiplexed_eq (parsed : parseSequencerMessage b.serialized = .ok seq) :
    multiplexed readDelayedInbox b read = drained (batch seq (some b.blockHash) readDelayedInbox read) := by
  have enough : (Feed.between [b] read).steps < Feed.batchSteps + 1 := by
    rw [Feed.steps, List.length_singleton, Nat.one_mul]
    exact Nat.lt_succ_self _
  rw [multiplexed, drain_refines _ (new_tracks [b] read), Answers.drain_eq (le_refl 1) enough]
  simp only [ofFeed, parsed]

/-- The multiplexed messages have the payloads and the delayed counts of the given ones. -/
def BringsBack (readDelayedInbox : Nat → Except Error L1IncomingMessage) (b : SequencerInboxBatch)
    (read : Nat) (ms : List MessageWithMetadata) : Prop :=
  ∃ out, multiplexed readDelayedInbox b read = .ok out ∧
    out.map (fun m => payloadAndCount m.messageWithMeta) = ms.map payloadAndCount

theorem bringsBack_iff (rlp : RlpRoundTrips) (brotli : BrotliRoundTrips) {afterDelayed : UInt64}
    (some : ms ≠ []) (after : afterDelayed.toNat = countAfter read ms)
    (carried : b.serialized = BatchPoster.assembleBatch BatchPoster.openBounds afterDelayed (ms.map payload))
    (has : HasDelayedOf readDelayedInbox read ms) : BringsBack readDelayedInbox b read ms ↔
      Carries read ms ((ms.map payload).take (segmentCap + 1)) ∨
        ∃ m, ms = [m] ∧ payload m = [] ∧ m.delayedMessagesRead ≤ read := by
  have parsed : parseSequencerMessage b.serialized = .ok ⟨0, 0xffffffffffffffff, 0, 0xffffffffffffffff,
      afterDelayed.toNat, (ms.map payload).take (segmentCap + 1)⟩ := by
    rw [carried]
    exact BatchPoster.parse_assembleBatch_take rlp brotli BatchPoster.openBounds afterDelayed _
  have behind : Behind ((ms.map payload).take (segmentCap + 1)) ms := by
    refine ⟨?_, fun same => List.take_of_length_le ?_⟩
    · rw [List.length_take, List.length_map]
      exact min_le_right _ _
    · rw [List.length_take, List.length_map] at same
      rw [List.length_map, ← same]
      exact min_le_left _ _
  have ordered : (0 : UInt64) ≤ 0xffffffffffffffff := by decide
  rw [BringsBack, multiplexed_eq parsed]
  exact gives_batch_iff ⟨ordered, ordered⟩ has after behind some

/-- The delayed count in front of the messages that a call covers. -/
def countBefore (db : Db) (src : NodeSegmentSource) : Nat :=
  getPrevPrevDelayedRead db (src.lastPostedMsgIdx + 1)

/-- The covered messages come back exactly when their payloads carry them, as far as the
decoder reads these, or when the only one is empty and reads no delayed message. -/
theorem covered_messages_return_iff (rlp : RlpRoundTrips) (brotli : BrotliRoundTrips) {db : Db}
    {maxBytes : Nat} {src src' : NodeSegmentSource} {segs : List Bytes} {afterDelayed : UInt64}
    {lastMessage : MessageWithMetadata} (taken : src.nextSegments db maxBytes = (segs, src'))
    (last : (NodeSegmentSource.covered db src src').getLast? = some lastMessage)
    (after : afterDelayed.toNat = lastMessage.delayedMessagesRead)
    (carried : b.serialized = BatchPoster.assembleBatch BatchPoster.openBounds afterDelayed segs)
    (has : HasDelayedOf readDelayedInbox (countBefore db src) (NodeSegmentSource.covered db src src')) :
    BringsBack readDelayedInbox b (countBefore db src) (NodeSegmentSource.covered db src src') ↔
      Carries (countBefore db src) (NodeSegmentSource.covered db src src') (segs.take (segmentCap + 1)) ∨
        ∃ m, NodeSegmentSource.covered db src src' = [m] ∧ payload m = [] ∧
          m.delayedMessagesRead ≤ countBefore db src := by
  have payloads := NodeSegmentSource.nextSegments_spec db maxBytes src
  rw [taken] at payloads
  have payloads : segs = (NodeSegmentSource.covered db src src').map payload := payloads
  rw [payloads] at carried ⊢
  refine bringsBack_iff rlp brotli ?_ (after.trans (countAfter_getLast last).symm) carried has
  intro none
  rw [none] at last
  cases last

end RoundTrip

section Samples
open Codecs

def payloadMessage (content : Bytes) (read : Nat) : MessageWithMetadataAndBlockInfo :=
  ⟨⟨⟨⟨3, .zero, 0, 0, none, 0⟩, content, none⟩, read⟩, none, none⟩

/-- The init message and the given ones. -/
def payloadStore (ms : List MessageWithMetadataAndBlockInfo) : Db :=
  StreamerOp.execute .empty (.add 0 (payloadMessage [] 1 :: ms) none)

theorem payloadStore_dense (ms : List MessageWithMetadataAndBlockInfo) : Dense (payloadStore ms) :=
  (StreamerOp.dense_execute (EmptyStore.dense ⟨rfl, fun _ _ _ => rfl⟩) (.add 0 _ none)).mpr trivial

def payloadBatch (afterDelayed : UInt64) (segs : List Bytes) : SequencerInboxBatch :=
  { batch 0 0 [] with serialized := BatchPoster.assembleBatch BatchPoster.openBounds afterDelayed segs }

/-- Two delayed messages: the payload of the first one starts with the kind of a delayed
segment, and that of the second one is not taken for a message. -/
def delayedPair : List MessageWithMetadataAndBlockInfo := [payloadMessage [2, 9] 2, payloadMessage [3] 3]

def delayedPairInbox (i : Nat) : Except Error L1IncomingMessage :=
  if i = 1 then .ok (payloadMessage [2, 9] 2).messageWithMeta.message
  else .ok (payloadMessage [3] 3).messageWithMeta.message

/-- What the first call covers of a store with the given messages behind the first one. -/
def coveredFirst (ms : List MessageWithMetadataAndBlockInfo) : List MessageWithMetadata :=
  NodeSegmentSource.covered (payloadStore ms) (.new 1000) ⟨ms.length, 1000⟩

theorem delayed_pair_returns : BringsBack delayedPairInbox (payloadBatch 3 [[2, 9], [3]])
    (countBefore (payloadStore delayedPair) (.new 1000)) (coveredFirst delayedPair) := by
  have taken : (NodeSegmentSource.new 1000).nextSegments (payloadStore delayedPair) 0 =
      ([[2, 9], [3]], ⟨2, 1000⟩) := by
    decide +kernel
  have covers : coveredFirst delayedPair = delayedPair.map (·.messageWithMeta) := by decide +kernel
  have before : countBefore (payloadStore delayedPair) (.new 1000) = 1 := by decide +kernel
  have pairs : withCountBefore (countBefore (payloadStore delayedPair) (.new 1000))
      (coveredFirst delayedPair) = [(1, (payloadMessage [2, 9] 2).messageWithMeta),
      (2, (payloadMessage [3] 3).messageWithMeta)] := by
    rw [before, covers]
    rfl
  have last : (coveredFirst delayedPair).getLast? = some (payloadMessage [3] 3).messageWithMeta := by
    rw [covers]
    rfl
  have has : HasDelayedOf delayedPairInbox (countBefore (payloadStore delayedPair) (.new 1000))
      (coveredFirst delayedPair) := by
    rw [HasDelayedOf, pairs]
    simp [delayedPairInbox]
  have carries : Carries (countBefore (payloadStore delayedPair) (.new 1000)) (coveredFirst delayedPair)
      (([[2, 9], [3]] : List Bytes).take (segmentCap + 1)) := by
    constructor
    · rw [pairs]
      exact .cons (.inr (.inr ⟨rfl, rfl⟩)) .nil
    · rw [pairs]
      simp [segmentCap, isSubmessage, IsDelayed, payloadMessage, batchSegmentKindAdvanceTimestamp,
        batchSegmentKindAdvanceL1BlockNumber]
  exact (covered_messages_return_iff rlp brotli taken last rfl rfl has).mpr (.inl carries)

/-- A signed transaction starts with a 4, the kind of a segment that advances the block. -/
def signedTx : List MessageWithMetadataAndBlockInfo := [payloadMessage [4, 0x80] 1]

theorem signed_tx_is_lost : RlpRoundTrips ∧ BrotliRoundTrips ∧ Dense (payloadStore signedTx) ∧
    (NodeSegmentSource.new 1000).nextSegments (payloadStore signedTx) 0 = ([[4, 0x80]], ⟨1, 1000⟩) ∧
    coveredFirst signedTx = signedTx.map (·.messageWithMeta) ∧
    countBefore (payloadStore signedTx) (.new 1000) = 1 ∧
    HasDelayedOf delayedPairInbox 1 (coveredFirst signedTx) ∧
    ¬ BringsBack delayedPairInbox (payloadBatch 1 [[4, 0x80]]) 1 (coveredFirst signedTx) := by
  have covers : coveredFirst signedTx = signedTx.map (·.messageWithMeta) := by decide +kernel
  have has : HasDelayedOf delayedPairInbox 1 (coveredFirst signedTx) := by
    rw [HasDelayedOf, covers]
    simp [signedTx, withCountBefore, IsDelayed, payloadMessage]
  refine ⟨rlp, brotli, payloadStore_dense _, by decide +kernel, covers, by decide +kernel, has, ?_⟩
  rw [covers] at has ⊢
  have after : (1 : UInt64).toNat = countAfter 1 (signedTx.map (·.messageWithMeta)) := rfl
  have carried : (payloadBatch 1 [[4, 0x80]]).serialized = BatchPoster.assembleBatch BatchPoster.openBounds 1
      ((signedTx.map (·.messageWithMeta)).map payload) := rfl
  have nonempty : signedTx.map (·.messageWithMeta) ≠ [] := List.cons_ne_nil _ _
  rw [bringsBack_iff rlp brotli nonempty after carried has]
  rintro (carries | ⟨m, same, empty, -⟩)
  · have quiet : ∀ p ∈ withCountBefore 1 (signedTx.map (·.messageWithMeta)), IsDelayed p := carries.rest
    simp [signedTx, withCountBefore, IsDelayed, payloadMessage] at quiet
  · cases same
    cases empty

end Samples

end NitroRs
