import NitroRs.Inbox.Recovery

/-! Where the messages of a window land. They are appended at the message count, and
the batches' own place is behind the messages of the batch in front of them. Where the
two differ the window is streamed from its beginning all the same. -/
namespace NitroRs
open KeyValue Outcome TransactionStreamer

section
variable [Externals]

/-- The `j`-th message that a multiplexer gives before it ends or fails. -/
def InboxMultiplexer.nthMessage : Nat → InboxMultiplexer → Option MessageWithMetadataAndBlockInfo
  | 0, mux =>
    match mux.pop with
    | .ok (some m) _ => some m
    | _ => none
  | j + 1, mux =>
    match mux.pop with
    | .ok (some _) mux => nthMessage j mux
    | _ => none

theorem InboxMultiplexer.nthMessage_of_drain {fuel : Nat} {mux : InboxMultiplexer}
    {out : List MessageWithMetadataAndBlockInfo} (drained : mux.drain fuel = .ok out) (j : Nat) :
    mux.nthMessage j = out[j]? := by
  induction fuel generalizing mux out j with
  | zero => contradiction
  | succ fuel ih =>
    rw [drain] at drained
    cases popped : mux.pop with
    | error e mux' =>
      rw [popped] at drained
      contradiction
    | ok answer mux' =>
      rw [popped] at drained
      cases answer with
      | none =>
        cases drained
        cases j <;> simp only [nthMessage, popped, List.getElem?_nil]
      | some m =>
        cases later : mux'.drain fuel with
        | error e =>
          simp only [later] at drained
          contradiction
        | ok rest =>
          simp only [later] at drained
          cases drained
          cases j with
          | zero => simp only [nthMessage, popped, List.getElem?_cons_zero]
          | succ j => simp only [nthMessage, popped, ih later, List.getElem?_cons_succ]

/-- The multiplexed stream of a list of batches, by position. -/
def messageStream (db : Db) (batches : List SequencerInboxBatch) (delayedMessagesRead : Nat) (j : Nat) :
    Option MessageWithMetadataAndBlockInfo :=
  (InboxMultiplexer.new ⟨batches, 0, 0, InboxTracker.getDelayedMessage db⟩ delayedMessagesRead).nthMessage j

theorem messageStream_of_streamBatches {db : Db} {batches : List SequencerInboxBatch} {read : Nat}
    {out : List MessageWithMetadataAndBlockInfo}
    (streamed : InboxTracker.streamBatches db batches read = .ok out) (j : Nat) :
    messageStream db batches read j = out[j]? := by
  rw [InboxTracker.streamBatches] at streamed
  exact InboxMultiplexer.nthMessage_of_drain streamed j

/-- The messages of a stream are stored from `start` on. -/
def LandsFrom (db : Db) (start : Nat) (stream : Nat → Option MessageWithMetadataAndBlockInfo) : Prop :=
  ∀ j m, stream j = some m → db.get .message (start + j) = some m.messageWithMeta

/-- The message table behind an append at `c`. The messages in front of the first one that
is not stored yet stay as they are stored, and a reorg leaves nothing past the last one. -/
def appendedAt (db : Db) (c : Nat) (ms : List MessageWithMetadataAndBlockInfo) (i : Nat) :
    Option MessageWithMetadata :=
  if i < c + (countDuplicateMessages db c ms).1 then db.get .message i
  else if i < c + ms.length then (ms[i - c]?).map (·.messageWithMeta)
  else if (countDuplicateMessages db c ms).2 then none
  else db.get .message i

/-- The messages of a stream that count as duplicates of what is stored from `c` on are
stored there in every field, also in the gas cost that the comparison leaves out. -/
def DuplicatesExact (db : Db) (c : Nat) (stream : Nat → Option MessageWithMetadataAndBlockInfo) : Prop :=
  ∀ j m, stream j = some m →
    (∀ i ≤ j, ∃ x old, stream i = some x ∧ db.get .message (c + i) = some old ∧
      isDuplicate old x.messageWithMeta = true) →
    db.get .message (c + j) = some m.messageWithMeta

omit [Externals] in
theorem DuplicatesExact.of_absent {db : Db} {c : Nat} {stream : Nat → Option MessageWithMetadataAndBlockInfo}
    (absent : db.get .message c = none) : DuplicatesExact db c stream := by
  intro j m here stored
  obtain ⟨_, old, _, there, _⟩ := stored 0 (Nat.zero_le j)
  cases absent.symm.trans there

/-- Each message of a stream that belongs from `start` on is stored at its index, or another
stream, from `c` on, gives it there. -/
def Repeated (db : Db) (c start : Nat) (stream again : Nat → Option MessageWithMetadataAndBlockInfo) : Prop :=
  ∀ j m, stream j = some m → db.get .message (start + j) = some m.messageWithMeta ∨
    ∃ i x, start + j = c + i ∧ again i = some x ∧ x.messageWithMeta = m.messageWithMeta

/-- The delayed count that a call multiplexes from, given the metadata that it reads. -/
def startDelayed (db : Db) (m : BatchMetadata) (c : Nat) : Nat :=
  if c = m.messageCount then m.delayedMessageCount else InboxTracker.realignedDelayed db m

variable {t t' : InboxTracker} {first : SequencerInboxBatch} {rest : List SequencerInboxBatch} {c : Nat}
  {m : BatchMetadata}

/-- What a call hands to the streamer is multiplexed from its starting count. -/
theorem Streams.streamed {t₂ : InboxTracker} {out : List MessageWithMetadataAndBlockInfo}
    (streams : Streams t (first :: rest) c out t₂) (found : t.metadataBefore first.sequenceNumber = some m) :
    InboxTracker.streamBatches t.db (first :: rest) (startDelayed t.db m c) = .ok out := by
  obtain ⟨_, _, m', t₁, read, ⟨rfl, rfl⟩, previous, aligned, streamed⟩ := streams.path
  obtain ⟨found', db₁⟩ := previousMetadata_eq_ok previous
  obtain rfl : m' = m := Option.some.inj (found'.symm.trans found)
  obtain ⟨window, t₃, aligned', _, place⟩ := InboxTracker.alignWindow_spec first.sequenceNumber m' c t₁
  cases aligned.symm.trans aligned'
  obtain ⟨_, start⟩ := place c read rfl
  rw [startDelayed, ← db₁, ← start, db₁, ← InboxTracker.streamBatches_congr streams.db.1]
  exact streamed

/-- A call that writes messages has handed its stream to the streamer. -/
theorem streams_of_wrote (counted : t.db.count .messageCount = some c)
    (accepted : InboxTracker.addSequencerBatchesAndStream (first :: rest) t = .ok () t')
    (wrote : t'.db.get .message ≠ t.db.get .message) : ∃ out t₂, Streams t (first :: rest) c out t₂ := by
  obtain ⟨t₂, same, _, ⟨_, finished⟩ | ⟨c', out, streams, _⟩⟩ := ingest_cases t first rest
  · have last : t' = t₂ := by
      rw [← final_of_ended finished, accepted, final_ok]
    exact absurd (congrFun (last ▸ get_of_repaired same) _) wrote
  · obtain rfl : c' = c := Option.some.inj (streams.counted.symm.trans counted)
    exact ⟨out, t₂, streams⟩

/-- What stands at each index once a stream was appended at the message count. -/
theorem Streams.appended {t₂ : InboxTracker} {out : List MessageWithMetadataAndBlockInfo}
    (streams : Streams t (first :: rest) c out t₂)
    (accepted : InboxTracker.addSequencerBatchesAndStream (first :: rest) t = .ok () t')
    (wrote : t'.db.get .message ≠ t.db.get .message) (i : Nat) :
    t'.db.get .message i = appendedAt t.db c out i := by
  obtain ⟨tables, counters⟩ := streams.db
  have message := congrFun tables .message
  have count₂ : messageCountOrZero t₂.db = c := by
    rw [messageCountOrZero, counters _ (by decide), streams.counted, Option.getD_some]
  rw [streams.reached] at accepted
  rcases addConfirmed_spec count₂ out with ⟨e, refused⟩ | ⟨kept, _⟩ | ⟨db', done, short, _, inside, beyond, _⟩
  · rw [bind_error (InboxTracker.onStreamer_error refused)] at accepted
    cases accepted
  · rw [bind_ok (InboxTracker.onStreamer_ok kept)] at accepted
    obtain ⟨_, _, _, _, _, _, recorded⟩ := InboxTracker.addSequencerBatches_eq_recorded accepted
    exact absurd (by rw [recorded, InboxTracker.get_recorded_message, message]) wrote
  · rw [bind_ok (InboxTracker.onStreamer_ok done)] at accepted
    obtain ⟨_, _, _, _, _, _, recorded⟩ := InboxTracker.addSequencerBatches_eq_recorded accepted
    rw [countDuplicateMessages_congr message] at short inside beyond
    rw [recorded, InboxTracker.get_recorded_message, appendedAt]
    by_cases window : i < c + out.length
    · rw [inside i window, stored, message]
      by_cases old : i < c + (countDuplicateMessages t.db c out).1
      · rw [if_pos old, if_neg (by omega)]
      · have shift : (countDuplicateMessages t.db c out).1 +
            (i - (c + (countDuplicateMessages t.db c out).1)) = i - c := by omega
        have inRange : c + (countDuplicateMessages t.db c out).1 ≤ i ∧
            i < c + (countDuplicateMessages t.db c out).1 +
              (out.drop (countDuplicateMessages t.db c out).1).length := by
          rw [List.length_drop]
          omega
        rw [if_neg old, if_pos window, if_pos inRange, List.getElem?_drop, shift]
    · have past : ¬ i < c + (countDuplicateMessages t.db c out).1 := by omega
      rw [beyond i (not_lt.mp window), if_neg past, if_neg window, message]

omit [Externals] in
/-- The duplicates are counted up to the first message that is not one. -/
theorem lt_duplicates_iff {db : Db} {c : Nat} {ms : List MessageWithMetadataAndBlockInfo} (j : Nat) :
    j < (countDuplicateMessages db c ms).1 ↔ ∀ i ≤ j, ∃ x old, ms[i]? = some x ∧
      db.get .message (c + i) = some old ∧ isDuplicate old x.messageWithMeta = true := by
  induction ms generalizing c j with
  | nil =>
    refine iff_of_false (Nat.not_lt_zero j) fun all => ?_
    obtain ⟨x, _, here, _⟩ := all 0 (Nat.zero_le j)
    cases here
  | cons m ms ih =>
    rw [countDuplicateMessages]
    cases stored : db.get .message c with
    | none =>
      refine iff_of_false (Nat.not_lt_zero j) fun all => ?_
      obtain ⟨_, old, _, found, _⟩ := all 0 (Nat.zero_le j)
      cases stored.symm.trans found
    | some old =>
      dsimp only
      by_cases same : isDuplicate old m.messageWithMeta = true
      · rw [if_pos same]
        cases j with
        | zero =>
          refine iff_of_true (Nat.succ_pos _) fun i first => ?_
          obtain rfl := Nat.le_zero.mp first
          exact ⟨m, old, rfl, stored, same⟩
        | succ j =>
          rw [Nat.succ_lt_succ_iff, ih j]
          constructor
          · intro later i within
            cases i with
            | zero => exact ⟨m, old, rfl, stored, same⟩
            | succ i =>
              obtain ⟨x, entry, here, found, equal⟩ := later i (Nat.le_of_succ_le_succ within)
              exact ⟨x, entry, here, by rwa [Nat.add_right_comm] at found, equal⟩
          · intro all i within
            obtain ⟨x, entry, here, found, equal⟩ := all (i + 1) (Nat.succ_le_succ within)
            exact ⟨x, entry, here, by rwa [Nat.add_right_comm], equal⟩
      · rw [if_neg same]
        refine iff_of_false (Nat.not_lt_zero j) fun all => ?_
        obtain ⟨x, entry, here, found, equal⟩ := all 0 (Nat.zero_le j)
        cases here
        cases stored.symm.trans found
        exact same equal

/-- Where the append starts at the stream's own place, only the duplicates can be wrong. -/
theorem Streams.lands_iff {t₂ : InboxTracker} {out : List MessageWithMetadataAndBlockInfo}
    (streams : Streams t (first :: rest) c out t₂)
    (accepted : InboxTracker.addSequencerBatchesAndStream (first :: rest) t = .ok () t')
    (wrote : t'.db.get .message ≠ t.db.get .message)
    {stream : Nat → Option MessageWithMetadataAndBlockInfo} (given : ∀ j, stream j = out[j]?) :
    LandsFrom t'.db c stream ↔ DuplicatesExact t.db c stream := by
  refine forall₃_congr fun j x here => ?_
  have inside : j < out.length := (List.getElem?_eq_some_iff.mp ((given j).symm.trans here)).1
  have counted : j < (countDuplicateMessages t.db c out).1 ↔ ∀ i ≤ j, ∃ x old, out[i]? = some x ∧
      t.db.get .message (c + i) = some old ∧ isDuplicate old x.messageWithMeta = true := lt_duplicates_iff j
  simp only [← given] at counted
  rw [streams.appended accepted wrote, appendedAt, ← counted]
  by_cases old : j < (countDuplicateMessages t.db c out).1
  · rw [if_pos (Nat.add_lt_add_left old c)]
    exact ⟨fun kept _ => kept, fun kept => kept old⟩
  · refine iff_of_true ?_ fun duplicate => absurd duplicate old
    rw [if_neg (by omega), if_pos (Nat.add_lt_add_left inside c), Nat.add_sub_cancel_left, ← given, here,
      Option.map_some]

/-- A stream lands only where it is stored already or appended. -/
theorem Streams.repeated {t₂ : InboxTracker} {out : List MessageWithMetadataAndBlockInfo}
    (streams : Streams t (first :: rest) c out t₂)
    (accepted : InboxTracker.addSequencerBatchesAndStream (first :: rest) t = .ok () t')
    (wrote : t'.db.get .message ≠ t.db.get .message) {start : Nat}
    {stream again : Nat → Option MessageWithMetadataAndBlockInfo} (given : ∀ j, again j = out[j]?)
    (lands : LandsFrom t'.db start stream) : Repeated t.db c start stream again := by
  intro j x here
  have there := lands j x here
  rw [streams.appended accepted wrote, appendedAt] at there
  split at there
  · exact .inl there
  · rename_i new
    split at there
    · obtain ⟨y, found, same⟩ := Option.map_eq_some_iff.mp there
      exact .inr ⟨start + j - c, y, by omega, (given _).trans found, same⟩
    · split at there
      · contradiction
      · exact .inl there

/-- Where neither the cache nor a branch moves the start, the messages of a window that was
written are at their own place exactly when what is stored from the count on as a duplicate
is stored in every field. Where the start is moved they are only if the stream that starts
there repeats what is not stored already. -/
theorem messages_land_where_level {read : BatchMetadata}
    (previous : storedPrevious t.db first.sequenceNumber = some m)
    (found : t.metadataBefore first.sequenceNumber = some read)
    (counted : t.db.count .messageCount = some c)
    (accepted : InboxTracker.addSequencerBatchesAndStream (first :: rest) t = .ok () t')
    (wrote : t'.db.get .message ≠ t.db.get .message) :
    (read = m ∧ c = m.messageCount →
      (LandsFrom t'.db m.messageCount (messageStream t.db (first :: rest) m.delayedMessageCount) ↔
        DuplicatesExact t.db c (messageStream t.db (first :: rest) m.delayedMessageCount))) ∧
    (LandsFrom t'.db m.messageCount (messageStream t.db (first :: rest) m.delayedMessageCount) →
      Repeated t.db c m.messageCount (messageStream t.db (first :: rest) m.delayedMessageCount)
        (messageStream t.db (first :: rest) (startDelayed t.db read c))) := by
  obtain ⟨out, t₂, streams⟩ := streams_of_wrote counted accepted wrote
  have streamed := messageStream_of_streamBatches (streams.streamed found)
  constructor
  · rintro ⟨rfl, rfl⟩
    rw [startDelayed, if_pos rfl] at streamed
    exact streams.lands_iff accepted wrote streamed
  · exact streams.repeated accepted wrote streamed

end

section Samples
open Codecs

/-- A tracker with one batch of two messages. -/
def oneBatch : InboxTracker :=
  final (InboxTracker.addSequencerBatchesAndStream [batch 0 0 [[0, 7], [0, 8]]] initialTracker)

/-- The next batch lands behind them. -/
theorem second_batch_lands : ∃ t', InboxTracker.addSequencerBatchesAndStream [batch 1 0 [[0, 9]]] oneBatch = .ok () t' ∧
    LandsFrom t'.db 2 (messageStream oneBatch.db [batch 1 0 [[0, 9]]] 0) := by
  obtain ⟨_, accepted⟩ := eq_ok_of_isOk (show isOk (InboxTracker.addSequencerBatchesAndStream
    [batch 1 0 [[0, 9]]] oneBatch) = true by decide +kernel)
  have previous : storedPrevious oneBatch.db 1 = some ⟨.zero, 2, 0, 0⟩ := by decide +kernel
  have found : oneBatch.metadataBefore 1 = some ⟨.zero, 2, 0, 0⟩ := by decide +kernel
  have counted : oneBatch.db.count .messageCount = some 2 := by decide +kernel
  have absent : oneBatch.db.get .message 2 = none := by decide +kernel
  have wrote : (final (InboxTracker.addSequencerBatchesAndStream [batch 1 0 [[0, 9]]] oneBatch)).db.get .message ≠
      oneBatch.db.get .message := by
    intro same
    have none := congrFun same 2
    exact absurd none (by decide +kernel)
  exact ⟨_, accepted, ((messages_land_where_level previous found counted accepted wrote).1 ⟨rfl, rfl⟩).mpr
    (.of_absent absent)⟩

/-- A tracker with a batch of two messages, of which a reorg has dropped the second. -/
def halfBatch : InboxTracker :=
  let t := final (InboxTracker.addSequencerBatchesAndStream [batch 0 0 [[0, 7], [0, 8]]] initialTracker)
  { t with db := final (addMessagesAndReorg 1 [] none t.db) }

/-- The batch read again is appended whole behind its own first message. -/
theorem reread_batch_lands_late : ∃ t', InboxTracker.addSequencerBatchesAndStream
      [batch 0 0 [[0, 7], [0, 8]]] halfBatch = .ok () t' ∧
    t'.db.get .message ≠ halfBatch.db.get .message ∧
    ¬ LandsFrom t'.db 0 (messageStream halfBatch.db [batch 0 0 [[0, 7], [0, 8]]] 0) := by
  obtain ⟨_, accepted⟩ := eq_ok_of_isOk (show isOk (InboxTracker.addSequencerBatchesAndStream
    [batch 0 0 [[0, 7], [0, 8]]] halfBatch) = true by decide +kernel)
  refine ⟨_, accepted, fun same => ?_, fun lands => ?_⟩
  · have none := congrFun same 1
    exact absurd none (by decide +kernel)
  · obtain ⟨m, second, content⟩ : ∃ m, messageStream halfBatch.db [batch 0 0 [[0, 7], [0, 8]]] 0 1 = some m ∧
        m.messageWithMeta.message.l2msg = [8] := by
      have given : (messageStream halfBatch.db [batch 0 0 [[0, 7], [0, 8]]] 0 1).map
          (·.messageWithMeta.message.l2msg) = some [8] := by decide +kernel
      simpa using Option.map_eq_some_iff.mp given
    have stored := congrArg (Option.map (·.message.l2msg)) (lands 1 m second)
    rw [Option.map_some, content] at stored
    exact absurd stored (by decide +kernel)

end Samples
end NitroRs
