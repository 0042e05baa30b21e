import NitroRs.Inbox.ByteTracker

/-! Ingestion on the bytes of the database: the multiplexer reads the delayed inbox from them, and
what it hands on is appended to them. -/
namespace NitroRs
open Checked KeyValue Outcome Simulation

section Segment
variable [Externals] {seq : SequencerMessage} {hash : Option B256} {ts bn : UInt64} {read : Nat} {seg : Bytes}
  {inbox inbox' : Nat → Except Error L1IncomingMessage}

/-- A segment asks for one delayed message at most. -/
theorem segmentMessage_inbox (same : inbox read = inbox' read) :
    segmentMessage seq hash inbox ts bn read seg = segmentMessage seq hash inbox' ts bn read seg := by
  cases seg with
  | nil => rfl
  | cons kind body => simp only [segmentMessage, same]

/-- The delayed count of a segment, and that of its message, have 64 bits. -/
theorem segmentMessage_fits (delayed : seq.afterDelayedMessages < 2 ^ 64) (small : read < 2 ^ 64)
    {result : Except Error (Option MessageWithMetadataAndBlockInfo)} {read' : Nat}
    (emitted : segmentMessage seq hash inbox ts bn read seg = .ok (result, read')) :
    read' < 2 ^ 64 ∧ ∀ m, result = .ok (some m) → SledStreamer.Valid m.messageWithMeta := by
  cases seg with
  | nil =>
    cases emitted
    exact ⟨small, by rintro _ ⟨⟩⟩
  | cons kind body =>
    simp only [segmentMessage] at emitted
    split at emitted
    · split at emitted
      · cases emitted
        exact ⟨small, by rintro _ ⟨⟩⟩
      · obtain ⟨block, _, emitted⟩ := except_bind_eq_ok.mp emitted
        obtain ⟨time, _, emitted⟩ := except_bind_eq_ok.mp emitted
        cases emitted
        refine ⟨small, fun m some => ?_⟩
        cases some
        exact small
    · split at emitted
      · split at emitted
        · cases emitted
          refine ⟨small, fun m some => ?_⟩
          cases some
          exact delayed
        · split at emitted
          · cases emitted
            exact ⟨small, by rintro _ ⟨⟩⟩
          · rename_i more _ _ _
            have next : read + 1 < 2 ^ 64 := by omega
            cases emitted
            refine ⟨next, fun m some => ?_⟩
            cases some
            exact next
      · cases emitted
        exact ⟨small, by rintro _ ⟨⟩⟩

end Segment

namespace InboxMultiplexer
variable [Externals] {mux : InboxMultiplexer} {inbox : Nat → Except Error L1IncomingMessage}

/-- The same multiplexer, in front of another delayed inbox. -/
def reading (mux : InboxMultiplexer) (inbox : Nat → Except Error L1IncomingMessage) : InboxMultiplexer :=
  { mux with backend := { mux.backend with readDelayedInbox := inbox } }

/-- The result of a call in front of another delayed inbox. -/
def resultReading {α : Type} (inbox : Nat → Except Error L1IncomingMessage) :
    EStateM.Result Error InboxMultiplexer α → EStateM.Result Error InboxMultiplexer α
  | .ok a mux => .ok a (mux.reading inbox)
  | .error e mux => .error e (mux.reading inbox)

theorem loadMsg_reading : (mux.reading inbox).loadMsg = resultReading inbox mux.loadMsg := by
  obtain ⟨backend, read, cached, hash, segment, timestamp, block, submessage⟩ := mux
  cases cached with
  | some seq => rfl
  | none =>
    have peek : { backend with readDelayedInbox := inbox }.peekSequencerInbox = backend.peekSequencerInbox := rfl
    simp only [loadMsg, reading, peek]
    cases backend.peekSequencerInbox with
    | error e => rfl
    | ok current =>
      obtain ⟨bytes, hash⟩ := current
      dsimp only
      cases parseSequencerMessage bytes <;> rfl

theorem getNextMsg_reading (same : inbox mux.delayedMessagesRead = mux.backend.readDelayedInbox mux.delayedMessagesRead) :
    (mux.reading inbox).getNextMsg = resultReading inbox mux.getNextMsg := by
  cases cached : mux.cachedMsg with
  | none => simp only [getNextMsg, reading, cached, resultReading]
  | some seq =>
    simp only [getNextMsg, reading, cached, segmentMessage_inbox same]
    generalize segmentMessage seq _ _ _ _ _ _ = emitted
    cases emitted <;> rfl

omit [Externals] in
theorem advanceSequencerInbox_inbox (b : InboxBackend) : b.advanceSequencerInbox.readDelayedInbox = b.readDelayedInbox := by
  unfold InboxBackend.advanceSequencerInbox
  split <;> rfl

omit [Externals] in
theorem advanceSequencerInbox_reading (b : InboxBackend) (inbox : Nat → Except Error L1IncomingMessage) :
    { b with readDelayedInbox := inbox }.advanceSequencerInbox =
      { b.advanceSequencerInbox with readDelayedInbox := inbox } := by
  unfold InboxBackend.advanceSequencerInbox
  by_cases more : b.batchIdx < b.batches.length
  · simp [more]
  · simp [more]

omit [Externals] in
theorem advance_reading : (mux.reading inbox).advance = mux.advance.reading inbox := by
  have last : (mux.reading inbox).isCachedSegmentLast = mux.isCachedSegmentLast := rfl
  rw [advance, advance, last]
  cases mux.isCachedSegmentLast with
  | false => rfl
  | true =>
    have moved := advanceSequencerInbox_reading (mux.backend.setPositionWithinMessage 0) inbox
    exact congrArg (fun backend => (⟨backend, _, none, none, 0, 0, 0, 0⟩ : InboxMultiplexer)) moved

omit [Externals] in
theorem advance_fits (loaded : ∀ seq, mux.cachedMsg = some seq → seq.afterDelayedMessages < 2 ^ 64)
    (small : mux.delayedMessagesRead < 2 ^ 64) :
    mux.advance.delayedMessagesRead < 2 ^ 64 ∧ mux.advance.backend.readDelayedInbox = mux.backend.readDelayedInbox := by
  rw [advance]
  cases mux.isCachedSegmentLast with
  | false => exact ⟨small, rfl⟩
  | true =>
    refine ⟨?_, advanceSequencerInbox_inbox (mux.backend.setPositionWithinMessage 0)⟩
    change (mux.cachedMsg.map (·.afterDelayedMessages)).getD mux.delayedMessagesRead < 2 ^ 64
    cases cached : mux.cachedMsg with
    | none => exact small
    | some seq => exact loaded seq cached

/-- What a call leaves: counts of 64 bits, and the delayed inbox that was there. -/
structure Fitting (mux : InboxMultiplexer)
    (result : EStateM.Result Error InboxMultiplexer (Option MessageWithMetadataAndBlockInfo)) : Prop where
  read : (final result).delayedMessagesRead < 2 ^ 64
  inbox : (final result).backend.readDelayedInbox = mux.backend.readDelayedInbox
  message : ∀ m mux', result = .ok (some m) mux' → SledStreamer.Valid m.messageWithMeta

/-- Loading a message leaves the position and the delayed count where they are. -/
theorem loadMsg_unmoved (mux : InboxMultiplexer) : (final mux.loadMsg).delayedMessagesRead = mux.delayedMessagesRead ∧
    (final mux.loadMsg).backend = mux.backend := by
  unfold loadMsg
  split
  · exact ⟨rfl, rfl⟩
  · split
    · exact ⟨rfl, rfl⟩
    · split <;> exact ⟨rfl, rfl⟩

theorem pop_reading (same : inbox mux.delayedMessagesRead = mux.backend.readDelayedInbox mux.delayedMessagesRead) :
    (mux.reading inbox).pop = resultReading inbox mux.pop := by
  have unmoved := mux.loadMsg_unmoved
  rw [pop, pop, loadMsg_reading]
  generalize mux.loadMsg = loaded at unmoved ⊢
  cases loaded with
  | error e mux' => rfl
  | ok seq mux' =>
    cases seq with
    | none => rfl
    | some seq =>
      obtain ⟨read, backend⟩ := unmoved
      rw [final_ok] at read backend
      have here : inbox mux'.delayedMessagesRead = mux'.backend.readDelayedInbox mux'.delayedMessagesRead := by
        rw [read, backend, same]
      simp only [resultReading, getNextMsg_reading here]
      cases mux'.getNextMsg with
      | error e mux' => rfl
      | ok result mux' =>
        cases result with
        | error e => simp only [advance_reading]
        | ok msg => simp only [advance_reading]

/-- The message that is loaded has a delayed count of 64 bits. -/
theorem loadMsg_fits (range : InRange mux) {seq : SequencerMessage} {mux' : InboxMultiplexer}
    (found : mux.loadMsg = .ok (some seq) mux') : mux'.cachedMsg = some seq ∧ seq.afterDelayedMessages < 2 ^ 64 := by
  unfold loadMsg at found
  split at found
  · rename_i cached
    cases found
    exact ⟨cached, (range.loaded seq cached).delayed⟩
  · rename_i cached
    split at found
    · cases found
    · split at found
      · cases found
      · rename_i parsed
        cases found
        exact ⟨rfl, ((range.load cached parsed none).loaded seq rfl).delayed⟩

theorem getNextMsg_fits {seq : SequencerMessage} (cached : mux.cachedMsg = some seq)
    (delayed : seq.afterDelayedMessages < 2 ^ 64) (small : mux.delayedMessagesRead < 2 ^ 64) :
    (final mux.getNextMsg).cachedMsg = some seq ∧ (final mux.getNextMsg).delayedMessagesRead < 2 ^ 64 ∧
      (final mux.getNextMsg).backend = mux.backend ∧
      ∀ m mux', mux.getNextMsg = .ok (.ok (some m)) mux' → SledStreamer.Valid m.messageWithMeta := by
  unfold getNextMsg
  simp only [cached]
  generalize emitted : segmentMessage seq _ _ _ _ _ _ = outcome
  cases outcome with
  | error panic => exact ⟨rfl, small, rfl, by rintro _ _ ⟨⟩⟩
  | ok outcome =>
    obtain ⟨result, read'⟩ := outcome
    obtain ⟨narrow, valid⟩ := segmentMessage_fits delayed small emitted
    refine ⟨rfl, narrow, rfl, fun m mux' given => ?_⟩
    cases given
    exact valid m rfl

theorem pop_fitting (range : InRange mux) (small : mux.delayedMessagesRead < 2 ^ 64) : Fitting mux mux.pop := by
  have unmoved := mux.loadMsg_unmoved
  have fits := @loadMsg_fits _ mux range
  unfold pop
  generalize mux.loadMsg = loaded at unmoved fits ⊢
  obtain ⟨read, backend⟩ := unmoved
  cases loaded with
  | error e mux' => exact ⟨read.trans_lt small, congrArg _ backend, by rintro _ _ ⟨⟩⟩
  | ok seq mux' =>
    cases seq with
    | none => exact ⟨read.trans_lt small, congrArg _ backend, by rintro _ _ ⟨⟩⟩
    | some seq =>
      obtain ⟨cached, delayed⟩ := fits rfl
      rw [final_ok] at read backend
      obtain ⟨kept, narrow, still, valid⟩ := getNextMsg_fits cached delayed (read.trans_lt small)
      have inbox := congrArg InboxBackend.readDelayedInbox (still.trans backend)
      dsimp only
      generalize mux'.getNextMsg = outcome at kept narrow inbox valid ⊢
      cases outcome with
      | error panic mux' => exact ⟨narrow, inbox, by rintro _ _ ⟨⟩⟩
      | ok result mux' =>
        have held (s : SequencerMessage) (loaded : mux'.cachedMsg = some s) : s.afterDelayedMessages < 2 ^ 64 := by
          cases kept.symm.trans loaded
          exact delayed
        obtain ⟨after, same⟩ := advance_fits held narrow
        cases result with
        | error e => exact ⟨after, same.trans inbox, by rintro _ _ ⟨⟩⟩
        | ok msg =>
          refine ⟨after, same.trans inbox, fun m mux' given => ?_⟩
          cases given
          exact valid m _ rfl

omit [Externals] in
theorem inRange_reading : InRange (mux.reading inbox) ↔ InRange mux := by
  constructor
  · intro range
    refine ⟨range.position, fun s cached => ?_, range.unloaded⟩
    have held := range.loaded s cached
    exact ⟨held.delayed, held.few, held.segment, held.reached, held.ahead⟩
  · intro range
    refine ⟨range.position, fun s cached => ?_, range.unloaded⟩
    have held := range.loaded s cached
    exact ⟨held.delayed, held.few, held.segment, held.reached, held.ahead⟩

end InboxMultiplexer

namespace SledTracker
variable [Externals] {rlp : AlloyRlp} {s : SledTracker} {t : InboxTracker} {tree : SledDb} {db : Db} {i n : Nat}
  {batches : List SequencerInboxBatch}

open InboxMultiplexer in
/-- Both loops read the same messages, as long as no checked step panics. -/
theorem drain_agrees {mux : InboxMultiplexer} {inbox : Nat → Except Error L1IncomingMessage} (range : InRange mux)
    (small : mux.delayedMessagesRead < 2 ^ 64) (same : ∀ i < 2 ^ 64, inbox i = mux.backend.readDelayedInbox i)
    (fuel : Nat) : Agrees (fun a b => a = b ∧ ∀ m ∈ b, SledStreamer.Valid m.messageWithMeta) StorageError.Is
      (drain fuel (mux.reading inbox)) (mux.drain fuel) := by
  induction fuel generalizing mux with
  | zero => exact .error rfl
  | succ fuel ih =>
    rw [drain, InboxMultiplexer.drain]
    rcases pop_checked (inRange_reading.mpr range) with ⟨_, checked, kept⟩ | ⟨_, panic, panics⟩
    · have fitting := pop_fitting range small
      rw [checked, pop_reading (same _ small)]
      rw [pop_reading (same _ small)] at kept
      generalize mux.pop = popped at fitting kept ⊢
      cases popped with
      | error e mux' => exact .error rfl
      | ok msg mux' =>
        cases msg with
        | none => exact .ok ⟨rfl, List.forall_mem_nil _⟩
        | some m =>
          have valid := fitting.message m mux' rfl
          have again := ih (inRange_reading.mp kept) fitting.read fun i below => by
            exact (same i below).trans (congrFun fitting.inbox i).symm
          change Agrees _ _ (drain fuel (mux'.reading inbox) >>= _) (mux'.drain fuel >>= _)
          refine .bind again fun out _ agree => ?_
          obtain ⟨rfl, all⟩ := agree
          exact .ok ⟨rfl, List.forall_mem_cons.mpr ⟨valid, all⟩⟩
    · rw [panics]
      exact .panic

theorem streamBatches_agrees (persisted : Persisted rlp tree db) (small : n < 2 ^ 64) :
    Agrees (fun a b => a = b ∧ ∀ m ∈ b, SledStreamer.Valid m.messageWithMeta) StorageError.Is
      (streamBatches tree batches n) (InboxTracker.streamBatches db batches n) := by
  rw [streamBatches, InboxTracker.streamBatches]
  have range : (InboxMultiplexer.new ⟨batches, 0, 0, InboxTracker.getDelayedMessage db⟩ n).InRange :=
    (InboxMultiplexer.PopReachable.new _ n (Nat.two_pow_pos 64)).inRange
  exact drain_agrees range small (fun i below => getDelayedMessage_eq persisted below) _

omit [Externals] in
theorem findInboxBatchContainingMessage_matches (lawful : rlp.Lawful) (same : PersistedTracker rlp s t) (pos : Nat) :
    Matches (PersistedTracker rlp) Eq StorageError.Is (findInboxBatchContainingMessage rlp pos s)
      (InboxTracker.findInboxBatchContainingMessage pos t) := by
  refine .bind (getBatchCount_matches lawful same) fun count _ s' t' related equal => ?_
  obtain ⟨rfl, small⟩ := equal
  by_cases none : count = 0
  · rw [if_pos none, if_pos none]
    exact .ok related rfl
  · rw [if_neg none, if_neg none]
    have last : count - 1 < 2 ^ 64 := by omega
    refine .bind (getBatchMessageCount_matches lawful related last) fun lastCount _ s' t' related equal => ?_
    subst equal
    by_cases beyond : lastCount ≤ pos
    · rw [if_pos beyond, if_pos beyond]
      exact .ok related rfl
    · rw [if_neg beyond, if_neg beyond]
      exact searchBatches_matches lawful related _ _ _

omit [Externals] in
theorem realignedDelayed_agrees (lawful : rlp.Lawful) (persisted : Persisted rlp tree db) {prevMeta : BatchMetadata}
    (fits : prevMeta.Fits) : Agrees (fun a b => a = b ∧ b < 2 ^ 64) StorageError.Is
      (realignedDelayed rlp tree prevMeta) (.ok (InboxTracker.realignedDelayed db prevMeta)) := by
  have stored := persisted.readU64 lawful .delayedMessageCount
  rw [Counter.key] at stored
  unfold realignedDelayed InboxTracker.realignedDelayed
  by_cases none : prevMeta.delayedMessageCount = 0
  · rw [if_pos none, if_pos none, getDelayedCount, stored, InboxTracker.getDelayedCount, Db.readCount]
    cases found : db.count .delayedMessageCount with
    | none => exact .ok ⟨rfl, fits.delayedMessageCount⟩
    | some count => exact .ok ⟨rfl, persisted.counts _ _ found⟩
  · rw [if_neg none, if_neg none]
    exact .ok ⟨rfl, fits.delayedMessageCount⟩

omit [Externals] in
theorem isAligned_matches (lawful : rlp.Lawful) (same : PersistedTracker rlp s t) (firstSeq dbCount : Nat) :
    Matches (PersistedTracker rlp) Eq StorageError.Is (isAligned rlp firstSeq dbCount s)
      (InboxTracker.isAligned firstSeq dbCount t) := by
  refine .bind (.attempt (getBatchCount_matches lawful same)) fun count count' s' t' related tried => ?_
  have level : count.toOption = count'.toOption := by
    cases tried with
    | ok value =>
      obtain ⟨rfl, _⟩ := value
      rfl
    | error cause => rfl
  rw [level]
  by_cases cold : count'.toOption.getD 0 = 0 ∧ firstSeq = 0 ∧ 0 < dbCount
  · rw [if_pos cold, if_pos cold]
    exact .ok related rfl
  · rw [if_neg cold, if_neg cold]
    refine .bind (.attempt (findInboxBatchContainingMessage_matches lawful related dbCount)) ?_
    intro found found' s' t' related tried
    cases tried with
    | error cause => exact .ok related rfl
    | ok value =>
      subst value
      rename_i found
      obtain ⟨index, inside⟩ := found
      cases inside with
      | false => exact .ok related rfl
      | true => exact .ok related rfl

omit [Externals] in
theorem alignWindow_matches (lawful : rlp.Lawful) (same : PersistedTracker rlp s t) (firstSeq : Nat)
    {prevMeta : BatchMetadata} (fits : prevMeta.Fits) {dbCount : Nat} (small : dbCount < 2 ^ 64) :
    Matches (PersistedTracker rlp) (fun a b => a = b ∧ ∀ p, b = some p → p.1 < 2 ^ 64 ∧ p.2 < 2 ^ 64) StorageError.Is
      (alignWindow rlp firstSeq prevMeta dbCount s) (InboxTracker.alignWindow firstSeq prevMeta dbCount t) := by
  unfold alignWindow InboxTracker.alignWindow
  by_cases level : dbCount = prevMeta.messageCount
  · rw [if_pos level, if_pos level]
    refine .ok same ⟨rfl, ?_⟩
    rintro _ ⟨⟩
    exact ⟨fits.messageCount, fits.delayedMessageCount⟩
  · rw [if_neg level, if_neg level]
    refine .bind (isAligned_matches lawful same firstSeq dbCount) fun aligned _ s' t' related equal => ?_
    subst equal
    cases aligned with
    | false =>
      refine .ok related ⟨rfl, ?_⟩
      rintro _ ⟨⟩
    | true =>
      change Matches _ _ _ ((lift (realignedDelayed rlp s'.db prevMeta) >>= _) s')
        ((lift (.ok (InboxTracker.realignedDelayed t'.db prevMeta)) >>= fun delayed => pure (some (dbCount, delayed))) t')
      refine .bind (.lift (realignedDelayed_agrees lawful related.db fits) related) fun delayed _ s' t' related equal => ?_
      obtain ⟨rfl, narrow⟩ := equal
      refine .ok related ⟨rfl, ?_⟩
      rintro _ ⟨⟩
      exact ⟨small, narrow⟩

omit [Externals] in
theorem readMessageCount_agrees (lawful : rlp.Lawful) (persisted : Persisted rlp tree db) :
    Agrees (fun a b => a = b ∧ b < 2 ^ 64) StorageError.Is (tree.readU64 rlp messageCountKey)
      (TransactionStreamer.getMessageCount db) := by
  have stored := persisted.readU64 lawful .messageCount
  rw [Counter.key] at stored
  rw [stored, TransactionStreamer.getMessageCount, Db.readCount]
  cases found : db.count .messageCount with
  | none => exact .error rfl
  | some count => exact .ok ⟨rfl, persisted.counts _ _ found⟩

theorem ingestWindow_matches (lawful : rlp.Lawful) (same : PersistedTracker rlp s t)
    (fits : ∀ b ∈ batches, SequencerInboxBatch.Fits b) {messageCount lastDelayed : Nat} (small : messageCount < 2 ^ 64)
    (narrow : lastDelayed < 2 ^ 64) : Matches (PersistedTracker rlp) Eq StorageError.Is
      (ingestWindow rlp batches messageCount lastDelayed s)
      (InboxTracker.ingestWindow batches messageCount lastDelayed t) := by
  unfold ingestWindow InboxTracker.ingestWindow
  rw [bind_read, bind_read]
  have stored := readMessageCount_agrees lawful same.db
  refine .bind (.lift (streamBatches_agrees same.db narrow) same) fun out _ s t same equal => ?_
  obtain ⟨rfl, valid⟩ := equal
  by_cases nothing : out.isEmpty = true
  · rw [if_pos nothing, if_pos nothing]
    exact .ok same rfl
  · rw [if_neg nothing, if_neg nothing]
    refine .bind (.lift stored same) fun count _ s t same equal => ?_
    obtain ⟨rfl, _⟩ := equal
    by_cases moved : count ≠ messageCount
    · rw [if_pos moved, if_pos moved]
      exact .error same rfl
    · rw [if_neg moved, if_neg moved]
      have appended := SledStreamer.addMessagesAndEndBatchImpl_matches lawful same.db valid small true none
      refine .bind (.zoom appended fun tree db persisted => ⟨persisted, same.cache, same.cached⟩) ?_
      exact fun _ _ _ _ same _ => addSequencerBatches_matches lawful same fits

theorem addSequencerBatchesAndStream_matches (lawful : rlp.Lawful) (same : PersistedTracker rlp s t)
    (fits : ∀ b ∈ batches, SequencerInboxBatch.Fits b) : Matches (PersistedTracker rlp) Eq StorageError.Is
      (addSequencerBatchesAndStream rlp batches s) (InboxTracker.addSequencerBatchesAndStream batches t) := by
  cases batches with
  | nil => exact .ok same rfl
  | cons first later =>
    have small := (fits first List.mem_cons_self).sequenceNumber
    refine .bind (previousMetadata_matches lawful same small) fun prevMeta _ s t same equal => ?_
    obtain ⟨rfl, narrow⟩ := equal
    rw [bind_read, bind_read]
    have stored := readMessageCount_agrees lawful same.db
    refine .bind (.lift stored same) fun dbCount _ s t same equal => ?_
    obtain ⟨rfl, word⟩ := equal
    refine .bind (alignWindow_matches lawful same _ narrow word) fun window _ s t same equal => ?_
    obtain ⟨rfl, inside⟩ := equal
    cases window with
    | none => exact .ok same rfl
    | some window =>
      obtain ⟨below, read⟩ := inside window rfl
      exact ingestWindow_matches lawful same fits below read

end SledTracker
end NitroRs
