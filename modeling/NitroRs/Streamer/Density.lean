import NitroRs.Lib.Runs
import NitroRs.Streamer.StreamerSpec

/-! The six key families of the message store, and the runs that keep them dense:
an entry for each message below the count and none past it. -/
namespace NitroRs
open KeyValue Outcome

namespace TransactionStreamer

/-- What the entry of a message puts into a table. -/
def column (m : MessageWithMetadataAndBlockInfo) (track : Option Nat) (idx : Nat) :
    (t : Table) → Option t.Record
  | .message => some m.messageWithMeta
  | .blockHashInputFeed => some m.blockHash
  | .blockMetadataInputFeed => if track.any (· ≤ idx) then m.blockMetadata else none
  | .missingBlockMetadataInputFeed =>
    if track.any (· ≤ idx) ∧ m.blockMetadata.isNone then some () else none
  | _ => none

theorem get_write_writeMessage_column (db : Db) (idx : Nat) (m : MessageWithMetadataAndBlockInfo)
    (track : Option Nat) (t : Table) (i : Nat) : (db.write (writeMessage idx m track)).get t i =
      if idx = i then (column m track idx t).or (db.get t i) else db.get t i := by
  have split : writeMessage idx m track = .put .message idx m.messageWithMeta ::
      .put .blockHashInputFeed idx m.blockHash :: (if track.any (· ≤ idx) then
        m.blockMetadata.elim [.put .missingBlockMetadataInputFeed idx ()] fun metadata =>
          [.put .blockMetadataInputFeed idx metadata]
      else []) := by
    cases track with
    | none => rfl
    | some start =>
      by_cases tracked : start ≤ idx <;> cases metadata : m.blockMetadata <;>
        simp [writeMessage, tracked, metadata]
  rw [split]
  cases tracked : track.any (· ≤ idx) <;> cases metadata : m.blockMetadata <;> cases t <;>
    simp [column, tracked, metadata, Store.get_apply_put_of_ne]

/-- What a table holds after messages were put at consecutive indices. -/
theorem get_write_writeMessages_column (db : Db) (track : Option Nat) (first : Nat)
    (ms : List MessageWithMetadataAndBlockInfo) (t : Table) (i : Nat) :
    (db.write (writeMessages track first ms)).get t i =
      if first ≤ i then ((ms[i - first]?).bind (column · track i t)).or (db.get t i)
      else db.get t i := by
  induction ms generalizing db first with
  | nil =>
    simp only [writeMessages, Store.write_cons, Store.write_nil, Store.get_apply_setCount,
      List.getElem?_nil, Option.bind_none, Option.none_or, ite_self]
  | cons m ms ih =>
    rw [writeMessages, Store.write_append, ih, get_write_writeMessage_column]
    rcases Nat.lt_trichotomy i first with below | rfl | above
    · rw [if_neg (by omega), if_neg (by omega), if_neg (by omega)]
    · rw [if_neg (by omega), if_pos rfl, if_pos le_rfl, Nat.sub_self]
      rfl
    · have shift : i - first = i - (first + 1) + 1 := by omega
      rw [if_pos (by omega), if_neg (by omega), if_pos (by omega), shift, List.getElem?_cons_succ]

theorem get_write_cutOps_streamer (db : Db) (first i : Nat) {t : Table} (owned : t.owner = .streamer) :
    (db.write (cutOps db first)).get t i = if first ≤ i then none else db.get t i := by
  cases t with
  | message => exact get_write_cutOps db first i
  | legacyDelayedMessage | rlpDelayedMessage | parentChainBlockNumber | sequencerBatchMeta
  | delayedSequenced => contradiction
  | messageResult | blockHashInputFeed | blockMetadataInputFeed | missingBlockMetadataInputFeed =>
    have gone {t : Table} (here : db.has t i = false) : db.get t i = none := by
      simpa [Store.has] using here
    simp only [cutOps, Store.write_append, Store.write_cons, Store.write_nil,
      Store.get_apply_setCount, Store.get_write_deleteFrom, ne_eq, reduceCtorEq, not_false_eq_true,
      Store.get_write_deleteFrom_of_ne]
    by_cases past : first ≤ i
    · cases here : db.has _ i with
      | true => simp [past]
      | false => simp [past, gone here]
    · simp [past]

/-- The store after a cut at `first`, with messages appended there. -/
theorem addMessagesAndReorg_eq {first : Nat} (positive : 0 < first)
    (ms : List MessageWithMetadataAndBlockInfo) (track : Option Nat) (db : Db) :
    ∃ db', addMessagesAndReorg first ms track db = .ok () db' ∧
      db'.count .messageCount = some (first + ms.length) ∧
      ∀ t, t.owner = .streamer → ∀ i, db'.get t i =
        if first ≤ i then (ms[i - first]?).bind (column · track i t) else db.get t i := by
  rw [addMessagesAndReorg, if_neg (Nat.pos_iff_ne_zero.mp positive), bind_update]
  cases ms with
  | nil =>
    refine ⟨_, rfl, by simp, fun t owned i => ?_⟩
    rw [List.getElem?_nil, Option.bind_none]
    exact get_write_cutOps_streamer db first i owned
  | cons m ms =>
    refine ⟨_, rfl, count_write_writeMessages _ _ _ _, fun t owned i => ?_⟩
    rw [get_write_writeMessages_column]
    change (if first ≤ i then (((m :: ms)[i - first]?).bind (column · track i t)).or
      ((db.write (cutOps db first)).get t i) else (db.write (cutOps db first)).get t i) = _
    rw [get_write_cutOps_streamer db first i owned]
    by_cases past : first ≤ i
    · simp only [if_pos past, Option.or_none]
    · simp only [if_neg past]

/-- An append to a store with nothing past its count is refused, changes nothing, or
puts all of its messages at the count. -/
theorem append_cases {db : Db} (tidy : NothingPastCount db) (first : Nat) (confirmed : Bool)
    (ms : List MessageWithMetadataAndBlockInfo) (track : Option Nat) :
    (first ≠ messageCountOrZero db ∧ addMessagesAndEndBatchImpl first confirmed ms track db =
      .error (.nonContiguousAppend (messageCountOrZero db) first) db) ∨
    first = messageCountOrZero db ∧
      ((∃ e, checkDelayedReads first (getPrevPrevDelayedRead db first) ms = .error e ∧
        addMessagesAndEndBatchImpl first confirmed ms track db = .error e db) ∨
      (checkDelayedReads first (getPrevPrevDelayedRead db first) ms = .ok () ∧
        addMessagesAndEndBatchImpl first confirmed ms track db = .ok ()
          (if ms = [] then db else db.write (writeMessages track first ms)))) := by
  unfold addMessagesAndEndBatchImpl
  rw [bind_read]
  by_cases counted : first = messageCountOrZero db
  swap
  · exact .inl ⟨counted, by rw [if_pos (Ne.symm counted)]; rfl⟩
  subst counted
  right
  have last : lastDelayedRead db (messageCountOrZero db) 0 ms =
      getPrevPrevDelayedRead db (messageCountOrZero db) := by
    unfold lastDelayedRead
    simp only [if_true, Nat.add_zero, List.drop_zero, lt_irrefl, false_and, if_false]
    cases ms <;> rfl
  rw [if_neg (by simp), countDuplicateMessages_fresh tidy]
  simp only [Bool.and_false, Bool.false_eq_true, if_false, Nat.add_zero, List.drop_zero, last]
  refine ⟨trivial, ?_⟩
  cases checked : checkDelayedReads (messageCountOrZero db)
    (getPrevPrevDelayedRead db (messageCountOrZero db)) ms with
  | error e => exact .inl ⟨e, rfl, rfl⟩
  | ok _ =>
    refine .inr ⟨rfl, ?_⟩
    rw [bind_lift_ok]
    cases ms with
    | nil => rfl
    | cons m ms => rfl

end TransactionStreamer

open TransactionStreamer

/-- A message and a block hash for each index below the count, and no entry past it. -/
structure Dense (db : Db) : Prop where
  message : ∀ i, db.has .message i ↔ i < messageCountOrZero db
  blockHash : ∀ i, db.has .blockHashInputFeed i ↔ i < messageCountOrZero db
  blockMetadata : ∀ i, db.has .blockMetadataInputFeed i → i < messageCountOrZero db
  missing : ∀ i, db.has .missingBlockMetadataInputFeed i → i < messageCountOrZero db

/-- A store with message count 0 and no entries. -/
structure EmptyStore (db : Db) : Prop where
  count : messageCountOrZero db = 0
  empty : ∀ t, t.owner = .streamer → ∀ i, db.get t i = none

theorem EmptyStore.dense {db : Db} (start : EmptyStore db) : Dense db := by
  have none (t : Table) (owned : t.owner = .streamer) (i : Nat) : db.has t i = false := by
    rw [Store.has, start.empty t owned]
    rfl
  constructor
  · intro i
    simp [none .message rfl, start.count]
  · intro i
    simp [none .blockHashInputFeed rfl, start.count]
  · intro i found
    rw [none .blockMetadataInputFeed rfl] at found
    contradiction
  · intro i found
    rw [none .missingBlockMetadataInputFeed rfl] at found
    contradiction

theorem Dense.nothingPast {db : Db} (dense : Dense db) : NothingPastCount db := by
  intro i past
  have absent := (dense.message i).not.mpr (not_lt.mpr past)
  simpa [Store.has] using absent

/-- The operations on the message store, by any caller. -/
inductive StreamerOp where
  | add (first : Nat) (messages : List MessageWithMetadataAndBlockInfo) (track : Option Nat)
  | addConfirmed (first : Nat) (messages : List MessageWithMetadataAndBlockInfo) (track : Option Nat)
  | addAndReorg (first : Nat) (messages : List MessageWithMetadataAndBlockInfo) (track : Option Nat)
  | reorgAt (first : Nat)

namespace StreamerOp

def call : StreamerOp → EStateM Error Db Unit
  | add first messages track => addMessagesAndEndBatch first messages track
  | addConfirmed first messages track => addConfirmedMessagesAndEndBatch first messages track
  | addAndReorg first messages track => addMessagesAndReorg first messages track
  | reorgAt first => reorgAtAndEndBatch first

/-- The store after the operation, whether it succeeds or fails. -/
def execute (db : Db) (op : StreamerOp) : Db := final (op.call db)

def run (db : Db) (ops : List StreamerOp) : Db := ops.foldl execute db

/-- A reorg starts at a message that is stored, or right behind the last one. -/
def InRange (op : StreamerOp) (db : Db) : Prop :=
  match op with
  | add .. | addConfirmed .. => True
  | addAndReorg first _ _ | reorgAt first => first ≤ messageCountOrZero db

end StreamerOp

/-- The message store after everything from `first` on was replaced by messages. -/
structure Replaced (db db' : Db) (first : Nat) (ms : List MessageWithMetadataAndBlockInfo)
    (track : Option Nat) : Prop where
  count : messageCountOrZero db' = first + ms.length
  get : ∀ t ∈ [Table.message, .blockHashInputFeed, .blockMetadataInputFeed,
    .missingBlockMetadataInputFeed], ∀ i, db'.get t i =
      if first ≤ i then (ms[i - first]?).bind (column · track i t) else db.get t i

namespace Replaced
variable {db db' : Db} {first : Nat} {ms : List MessageWithMetadataAndBlockInfo} {track : Option Nat}

/-- A table with an entry for every message. -/
theorem has_iff (replaced : Replaced db db' first ms track) {t : Table}
    (listed : t = .message ∨ t = .blockHashInputFeed) (i : Nat) :
    db'.has t i ↔ (if first ≤ i then i < first + ms.length else (db.has t i : Prop)) := by
  have filled (m : MessageWithMetadataAndBlockInfo) : (column m track i t).isSome := by
    rcases listed with rfl | rfl <;> rfl
  rw [Store.has, replaced.get t (by rcases listed with rfl | rfl <;> simp) i]
  by_cases past : first ≤ i
  · rw [if_pos past, if_pos past]
    by_cases inside : i < first + ms.length
    · rw [List.getElem?_eq_getElem (by omega), Option.bind_some]
      exact iff_of_true (filled _) inside
    · rw [List.getElem?_eq_none (by omega)]
      exact iff_of_false Bool.false_ne_true inside
  · rw [if_neg past, if_neg past]
    rfl

/-- No table has an entry past the messages, unless it had one in front of `first`. -/
theorem lt_of_has (replaced : Replaced db db' first ms track) {t : Table}
    (listed : t ∈ [Table.message, .blockHashInputFeed, .blockMetadataInputFeed,
      .missingBlockMetadataInputFeed]) {i : Nat} (found : db'.has t i) :
    i < first + ms.length := by
  rw [Store.has, replaced.get t listed i] at found
  by_contra beyond
  rw [if_pos (by omega), List.getElem?_eq_none (by omega)] at found
  contradiction

/-- The store is dense again exactly when nothing is missing in front of `first`. -/
theorem dense_iff (replaced : Replaced db db' first ms track) (dense : Dense db) :
    Dense db' ↔ first ≤ messageCountOrZero db := by
  constructor
  · intro dense'
    by_contra gap
    have inside : messageCountOrZero db < messageCountOrZero db' := by
      rw [replaced.count]
      omega
    have found := (dense'.message _).mpr inside
    rw [replaced.has_iff (.inl rfl), if_neg gap] at found
    exact absurd ((dense.message _).mp found) (lt_irrefl _)
  · intro inside
    constructor
    · intro i
      rw [replaced.has_iff (.inl rfl), replaced.count, dense.message]
      split <;> omega
    · intro i
      rw [replaced.has_iff (.inr rfl), replaced.count, dense.blockHash]
      split <;> omega
    · intro i found
      rw [replaced.count]
      exact replaced.lt_of_has (by simp) found
    · intro i found
      rw [replaced.count]
      exact replaced.lt_of_has (by simp) found

end Replaced

/-- The key families are empty from the count on. -/
theorem Dense.absent {db : Db} (dense : Dense db) {i : Nat} (past : messageCountOrZero db ≤ i) :
    ∀ t ∈ [Table.message, .blockHashInputFeed, .blockMetadataInputFeed,
      .missingBlockMetadataInputFeed], db.get t i = none := by
  intro t listed
  have none : ¬ db.has t i := by
    have bound := not_lt.mpr past
    simp only [List.mem_cons, List.not_mem_nil, or_false] at listed
    rcases listed with rfl | rfl | rfl | rfl
    · rwa [dense.message]
    · rwa [dense.blockHash]
    · exact fun found => bound (dense.blockMetadata i found)
    · exact fun found => bound (dense.missing i found)
  simpa [Store.has] using none

theorem Dense.replaced_append {db : Db} (dense : Dense db)
    (ms : List MessageWithMetadataAndBlockInfo) (track : Option Nat) :
    Replaced db (db.write (writeMessages track (messageCountOrZero db) ms))
      (messageCountOrZero db) ms track := by
  constructor
  · rw [messageCountOrZero, count_write_writeMessages, Option.getD_some]
  · intro t listed i
    rw [get_write_writeMessages_column]
    by_cases past : messageCountOrZero db ≤ i
    · rw [if_pos past, if_pos past, dense.absent past t listed, Option.or_none]
    · rw [if_neg past, if_neg past]

theorem replaced_reorg {first : Nat} (positive : 0 < first) (ms : List MessageWithMetadataAndBlockInfo)
    (track : Option Nat) (db : Db) :
    Replaced db (final (addMessagesAndReorg first ms track db)) first ms track := by
  obtain ⟨db', done, count, lookups⟩ := addMessagesAndReorg_eq positive ms track db
  rw [done, final_ok]
  refine ⟨by rw [messageCountOrZero, count, Option.getD_some], fun t listed i => lookups t ?_ i⟩
  simp only [List.mem_cons, List.not_mem_nil, or_false] at listed
  rcases listed with rfl | rfl | rfl | rfl <;> rfl

namespace StreamerOp

theorem dense_append {db : Db} (dense : Dense db) (first : Nat) (confirmed : Bool)
    (ms : List MessageWithMetadataAndBlockInfo) (track : Option Nat) :
    Dense (final (addMessagesAndEndBatchImpl first confirmed ms track db)) := by
  rcases append_cases dense.nothingPast first confirmed ms track with
    ⟨_, refused⟩ | ⟨rfl, ⟨e, _, refused⟩ | ⟨_, accepted⟩⟩
  · rwa [refused]
  · rwa [refused]
  · rw [accepted, final_ok]
    split
    · exact dense
    · exact ((dense.replaced_append ms track).dense_iff dense).mpr le_rfl

theorem dense_reorg {db : Db} (dense : Dense db) (first : Nat)
    (ms : List MessageWithMetadataAndBlockInfo) (track : Option Nat) :
    Dense (final (addMessagesAndReorg first ms track db)) ↔ first ≤ messageCountOrZero db := by
  rcases Nat.eq_zero_or_pos first with rfl | positive
  · exact iff_of_true dense (Nat.zero_le _)
  · exact (replaced_reorg positive ms track db).dense_iff dense

/-- One operation keeps a dense store dense exactly when it is no reorg past the count. -/
theorem dense_execute {db : Db} (dense : Dense db) (op : StreamerOp) :
    Dense (execute db op) ↔ op.InRange db := by
  cases op with
  | add first ms track => exact iff_of_true (dense_append dense first false ms track) trivial
  | addConfirmed first ms track => exact iff_of_true (dense_append dense first true ms track) trivial
  | addAndReorg first ms track => exact dense_reorg dense first ms track
  | reorgAt first => exact dense_reorg dense first [] none

end StreamerOp

/-- A run from an empty store stays dense exactly when no reorg starts past the count. -/
theorem dense_run_iff {start : Db} (empty : EmptyStore start) (ops : List StreamerOp) :
    (∀ n, Dense (StreamerOp.run start (ops.take n))) ↔
      ∀ n (op : StreamerOp), ops[n]? = some op → op.InRange (StreamerOp.run start (ops.take n)) := by
  have keeps (db : Db) (op : StreamerOp) (_ _ : True) (dense : Dense db) :
      Dense (StreamerOp.execute db op) ↔ op.InRange db := StreamerOp.dense_execute dense op
  exact Runs.forall_foldl_iff (fun _ => True) (fun _ _ => True) (fun _ _ _ _ => trivial) keeps ops
    (fun _ _ _ => trivial) trivial empty.dense

/-- Appends, and reorgs at 0, which are refused, keep every state of a run dense. -/
theorem append_and_refused_reorg_dense : Dense (StreamerOp.run .empty
    [.add 0 [⟨⟨⟨⟨3, .zero, 0, 0, none, 0⟩, [], none⟩, 1⟩, none, none⟩] (some 0),
      .addAndReorg 0 [] none]) := by
  refine (dense_run_iff ⟨rfl, fun _ _ _ => rfl⟩ [.add 0 [⟨⟨⟨⟨3, .zero, 0, 0, none, 0⟩, [], none⟩, 1⟩,
    none, none⟩] (some 0), .addAndReorg 0 [] none]).mpr (fun n op here => ?_) 2
  match n with
  | 0 =>
    cases here
    trivial
  | 1 =>
    cases here
    exact Nat.zero_le _

/-- A reorg past the head of an empty store leaves a gap. -/
theorem reorg_past_head_leaves_gap : ¬ ∀ ops n, Dense (StreamerOp.run .empty (List.take n ops)) := by
  intro dense
  have gap := (dense [.reorgAt 5] 1).message 0
  exact absurd (gap.mpr (by decide +kernel)) (by decide +kernel)

end NitroRs
