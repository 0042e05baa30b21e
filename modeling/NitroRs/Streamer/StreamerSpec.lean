import NitroRs.Streamer.Streamer

/-! What the streamer's operations do to the message store. -/
namespace NitroRs.TransactionStreamer
open KeyValue Outcome

/-- The message table after a list of messages was put at consecutive indices. -/
def stored (db : Db) (first : Nat) (messages : List MessageWithMetadataAndBlockInfo) (i : Nat) :
    Option MessageWithMetadata :=
  if first ≤ i ∧ i < first + messages.length then (messages[i - first]?).map (·.messageWithMeta)
  else db.get .message i

/-- Besides the message itself, an entry writes its block hash and its metadata. -/
theorem writeMessage_place (idx : Nat) (m : MessageWithMetadataAndBlockInfo) (track : Option Nat) :
    ∃ ops, writeMessage idx m track = .put .message idx m.messageWithMeta :: ops ∧
      ∀ op ∈ ops, op.place ∈ [.table .blockHashInputFeed, .table .blockMetadataInputFeed,
        .table .missingBlockMetadataInputFeed] := by
  refine ⟨_, rfl, ?_⟩
  intro op member
  rcases List.mem_cons.mp member with rfl | member
  · simp [Op.place]
  · split at member
    · exact nomatch member
    · split at member
      · split at member
        · obtain rfl := List.mem_singleton.mp member
          simp [Op.place]
        · obtain rfl := List.mem_singleton.mp member
          simp [Op.place]
      · exact nomatch member

theorem get_write_writeMessage (db : Db) (idx : Nat) (m : MessageWithMetadataAndBlockInfo)
    (track : Option Nat) (i : Nat) : (db.write (writeMessage idx m track)).get .message i =
      if idx = i then some m.messageWithMeta else db.get .message i := by
  obtain ⟨ops, shape, places⟩ := writeMessage_place idx m track
  rw [shape, Store.write_cons, Store.get_write_of_untouched, Store.get_apply_put]
  intro op member place
  have listed := places op member
  rw [place] at listed
  exact absurd listed (by decide)

theorem writeMessages_owner (track : Option Nat) (idx : Nat)
    (ms : List MessageWithMetadataAndBlockInfo) :
    ∀ op ∈ writeMessages track idx ms, DbOp.owner op ≠ .tracker := by
  induction ms generalizing idx with
  | nil =>
    intro op member
    obtain rfl := List.mem_singleton.mp member
    exact nofun
  | cons m ms ih =>
    intro op member
    obtain ⟨ops, shape, places⟩ := writeMessage_place idx m track
    rw [writeMessages, shape, List.mem_append, List.mem_cons] at member
    rcases member with (rfl | member) | later
    · exact nofun
    · have listed := places op member
      simp only [List.mem_cons, List.not_mem_nil, or_false] at listed
      rcases listed with place | place | place <;> rw [DbOp.owner, place] <;> decide
    · exact ih (idx + 1) op later

theorem get_write_writeMessages (db : Db) (track : Option Nat) (first : Nat)
    (ms : List MessageWithMetadataAndBlockInfo) (i : Nat) :
    (db.write (writeMessages track first ms)).get .message i = stored db first ms i := by
  induction ms generalizing db first with
  | nil =>
    rw [stored, if_neg (by simp)]
    rfl
  | cons m ms ih =>
    rw [writeMessages, Store.write_append, ih, stored, stored, get_write_writeMessage]
    rcases Nat.lt_trichotomy i first with below | rfl | above
    · rw [if_neg (by omega), if_neg (by omega), if_neg (by omega)]
    · rw [if_neg (by omega), if_pos rfl, if_pos ⟨le_rfl, by simp⟩, Nat.sub_self]
      rfl
    · obtain ⟨k, rfl⟩ : ∃ k, i = first + 1 + k := ⟨i - (first + 1), by omega⟩
      have shift : first + 1 + k - first = k + 1 := by omega
      have shift' : first + 1 + k - (first + 1) = k := by omega
      have apart : first ≠ first + 1 + k := by omega
      have range : first ≤ first + 1 + k ∧ first + 1 + k < first + (ms.length + 1) ↔
          first + 1 ≤ first + 1 + k ∧ first + 1 + k < first + 1 + ms.length := by omega
      simp only [shift, shift', List.getElem?_cons_succ, List.length_cons, range, if_neg apart]

theorem count_write_writeMessages (db : Db) (track : Option Nat) (first : Nat)
    (ms : List MessageWithMetadataAndBlockInfo) :
    (db.write (writeMessages track first ms)).count .messageCount = some (first + ms.length) := by
  induction ms generalizing db first with
  | nil => simp [writeMessages]
  | cons m ms ih =>
    rw [writeMessages, Store.write_append, ih, List.length_cons]
    congr 1
    omega

/-- The entries that are stored already: each is a duplicate, and the first one
that is not decides on a reorg. -/
theorem countDuplicateMessages_spec (db : Db) (first : Nat)
    (ms : List MessageWithMetadataAndBlockInfo) {dups : Nat} {reorg : Bool}
    (counted : countDuplicateMessages db first ms = (dups, reorg)) :
    dups ≤ ms.length ∧ (dups = ms.length → reorg = false) ∧
      ∀ m, ms[dups]? = some m → db.get .message (first + dups) ≠ some m.messageWithMeta := by
  induction ms generalizing first dups reorg with
  | nil =>
    cases counted
    exact ⟨le_rfl, fun _ => rfl, nofun⟩
  | cons m ms ih =>
    rw [countDuplicateMessages] at counted
    split at counted
    · rename_i missing
      cases counted
      refine ⟨Nat.zero_le _, fun none => by simp at none, fun m' here => ?_⟩
      rw [Nat.add_zero, missing]
      exact (Option.some_ne_none _).symm
    · rename_i old here
      split at counted
      · obtain ⟨bound, whole, differs⟩ := ih (first + 1) rfl
        cases counted
        refine ⟨Nat.succ_le_succ bound, fun all => whole (Nat.succ.inj all), fun m' found => ?_⟩
        have next := differs m' found
        rwa [Nat.add_assoc, Nat.add_comm 1] at next
      · rename_i distinct
        cases counted
        refine ⟨Nat.zero_le _, fun none => by simp at none, fun m' found => ?_⟩
        cases found
        rw [Nat.add_zero, here]
        rintro ⟨rfl⟩
        exact distinct (by simp [isDuplicate])

/-- The operations that drop everything from an index on. -/
def cutOps (db : Db) (first : Nat) : List DbOp :=
  db.deleteFrom .messageResult first ++ db.deleteFrom .blockHashInputFeed first ++
    db.deleteFrom .blockMetadataInputFeed first ++
    db.deleteFrom .missingBlockMetadataInputFeed first ++ db.deleteFrom .message first ++
    [.setCount .messageCount first]

theorem cutOps_owner (db : Db) (first : Nat) :
    ∀ op ∈ cutOps db first, DbOp.owner op ≠ .tracker := by
  intro op member
  simp only [cutOps, List.mem_append, List.mem_singleton] at member
  rcases member with ((((deleted | deleted) | deleted) | deleted) | deleted) | rfl
  case inr => exact nofun
  all_goals
    rw [owner_of_deleteFrom op deleted]
    decide

theorem get_write_cutOps (db : Db) (first i : Nat) :
    (db.write (cutOps db first)).get .message i = if first ≤ i then none else db.get .message i := by
  simp only [cutOps, Store.write_append, Store.write_cons, Store.write_nil, Store.get_apply_setCount]
  rw [Store.get_write_deleteFrom_of_eq]
  intro i
  rw [Store.get_write_deleteFrom_of_ne _ _ _ (by decide),
    Store.get_write_deleteFrom_of_ne _ _ _ (by decide),
    Store.get_write_deleteFrom_of_ne _ _ _ (by decide),
    Store.get_write_deleteFrom_of_ne _ _ _ (by decide)]

/-- A reorg drops the messages from an index on and appends there. -/
theorem addMessagesAndReorg_spec (first : Nat) (ms : List MessageWithMetadataAndBlockInfo)
    (track : Option Nat) (db : Db) :
    (first = 0 ∧ addMessagesAndReorg first ms track db = .error .reorgInitMessage db) ∨
    ∃ db', 0 < first ∧ addMessagesAndReorg first ms track db = .ok () db' ∧
      db'.count .messageCount = some (first + ms.length) ∧
      (∀ i, db'.get .message i =
        if first ≤ i then (ms[i - first]?).map (·.messageWithMeta) else db.get .message i) ∧
      Agree .tracker db db' := by
  by_cases init : first = 0
  · left
    refine ⟨init, ?_⟩
    rw [addMessagesAndReorg, if_pos init]
    rfl
  · right
    have cut : Agree .tracker db (db.write (cutOps db first)) := Agree.write (cutOps_owner db first)
    have reached : addMessagesAndReorg first ms track db =
        (if ms.isEmpty then return () else update fun db =>
          db.write (writeMessages track first ms) : EStateM Error Db Unit)
            (db.write (cutOps db first)) := by
      rw [addMessagesAndReorg, if_neg init]
      rfl
    rw [reached]
    cases ms with
    | nil =>
      refine ⟨_, Nat.pos_of_ne_zero init, rfl, ?_, ?_, cut⟩
      · simp [cutOps]
      · intro i
        rw [get_write_cutOps]
        rfl
    | cons m ms =>
      refine ⟨_, Nat.pos_of_ne_zero init, rfl, count_write_writeMessages _ _ _ _, ?_,
        cut.trans (Agree.write (writeMessages_owner _ _ _))⟩
      intro i
      rw [get_write_writeMessages, stored, get_write_cutOps]
      by_cases past : first ≤ i
      · by_cases inside : i < first + (m :: ms).length
        · rw [if_pos ⟨past, inside⟩, if_pos past]
        · rw [if_neg fun both => inside both.2, if_pos past, if_pos past,
            List.getElem?_eq_none (by omega)]
          rfl
      · rw [if_neg fun both => past both.1, if_neg past, if_neg past]

/-- What an append at the message count does: it is refused, or everything was
stored before, or the messages from the first one that was not are written. -/
theorem addConfirmed_spec {db : Db} {first : Nat} (counted : messageCountOrZero db = first)
    (ms : List MessageWithMetadataAndBlockInfo) :
    (∃ e, addConfirmedMessagesAndEndBatch first ms none db = .error e db) ∨
    (addConfirmedMessagesAndEndBatch first ms none db = .ok () db ∧
      ms.length ≤ (countDuplicateMessages db first ms).1) ∨
    ∃ db', addConfirmedMessagesAndEndBatch first ms none db = .ok () db' ∧
      (countDuplicateMessages db first ms).1 < ms.length ∧
      db'.count .messageCount = some (first + ms.length) ∧
      (∀ i, i < first + ms.length → db'.get .message i =
        stored db (first + (countDuplicateMessages db first ms).1)
          (ms.drop (countDuplicateMessages db first ms).1) i) ∧
      (∀ i, first + ms.length ≤ i → db'.get .message i =
        if (countDuplicateMessages db first ms).2 then none else db.get .message i) ∧
      Agree .tracker db db' := by
  rcases counts : countDuplicateMessages db first ms with ⟨dups, reorg⟩
  obtain ⟨bound, whole, _⟩ := countDuplicateMessages_spec db first ms counts
  simp only [addConfirmedMessagesAndEndBatch, addMessagesAndEndBatchImpl, bind_read, counted,
    ne_eq, not_true_eq_false, if_false, counts, Bool.not_true, Bool.false_and, Bool.false_eq_true]
  cases jumps : checkDelayedReads (first + dups) (lastDelayedRead db first dups ms) (ms.drop dups) with
  | error e => exact .inl ⟨e, rfl⟩
  | ok _ =>
    rw [bind_lift_ok]
    have length : first + dups + (ms.drop dups).length = first + ms.length := by
      rw [List.length_drop]
      omega
    cases reorg with
    | true =>
      rw [if_pos rfl]
      have short : dups < ms.length := lt_of_le_of_ne bound fun all => nomatch whole all
      rcases addMessagesAndReorg_spec (first + dups) (ms.drop dups) none db with
        ⟨_, refused⟩ | ⟨db', _, done, count, messages, frame⟩
      · exact .inl ⟨_, refused⟩
      · refine .inr (.inr ⟨db', done, short, by rw [count, length], ?_, ?_, frame⟩)
        · intro i inside
          rw [messages, stored, length]
          by_cases past : first + dups ≤ i
          · rw [if_pos past, if_pos ⟨past, inside⟩]
          · rw [if_neg past, if_neg fun both => past both.1]
        · intro i beyond
          rw [messages, if_pos (by omega), List.getElem?_eq_none (by omega)]
          rfl
    | false =>
      rw [if_neg Bool.false_ne_true]
      cases fresh : ms.drop dups with
      | nil =>
        have all : ms.length ≤ dups := List.drop_eq_nil_iff.mp fresh
        exact .inr (.inl ⟨rfl, all⟩)
      | cons m rest =>
        have short : dups < ms.length := by
          by_contra all
          rw [List.drop_eq_nil_of_le (by omega)] at fresh
          contradiction
        refine .inr (.inr ⟨_, rfl, short, ?_, ?_, ?_, Agree.write (writeMessages_owner _ _ _)⟩)
        · rw [count_write_writeMessages, ← fresh, length]
        · exact fun i _ => get_write_writeMessages _ _ _ _ _
        · intro i beyond
          rw [get_write_writeMessages, stored, if_neg (by rw [← fresh, length]; omega)]
          rfl

/-- No message is stored at the message count or past it. -/
def NothingPastCount (db : Db) : Prop :=
  ∀ i, messageCountOrZero db ≤ i → db.get .message i = none

theorem NothingPastCount.of_agree {db db' : Db} (tidy : NothingPastCount db)
    (frame : Agree .streamer db db') : NothingPastCount db' := by
  intro i past
  rw [frame.get _ rfl]
  apply tidy i
  rwa [messageCountOrZero, frame.count _ rfl] at past

/-- With nothing stored past the count, nothing that is appended there is a duplicate. -/
theorem countDuplicateMessages_fresh {db : Db} (tidy : NothingPastCount db)
    (ms : List MessageWithMetadataAndBlockInfo) :
    countDuplicateMessages db (messageCountOrZero db) ms = (0, false) := by
  cases ms with
  | nil => rfl
  | cons m ms => simp only [countDuplicateMessages, tidy _ le_rfl]

theorem addMessagesAndReorg_tidy {db : Db} (tidy : NothingPastCount db) (first : Nat)
    (ms : List MessageWithMetadataAndBlockInfo) (track : Option Nat) :
    NothingPastCount (final (addMessagesAndReorg first ms track db)) := by
  rcases addMessagesAndReorg_spec first ms track db with ⟨_, refused⟩ | ⟨db', _, done, count, messages, _⟩
  · rwa [refused]
  · rw [done]
    intro i past
    rw [final_ok, messageCountOrZero, count, Option.getD_some] at past
    rw [final_ok, messages, if_pos (by omega), List.getElem?_eq_none (by omega)]
    rfl

/-- Every append keeps the store free of messages past its count. -/
theorem addMessagesAndEndBatchImpl_tidy {db : Db} (tidy : NothingPastCount db) (first : Nat)
    (confirmed : Bool) (ms : List MessageWithMetadataAndBlockInfo) (track : Option Nat) :
    NothingPastCount (final (addMessagesAndEndBatchImpl first confirmed ms track db)) := by
  unfold addMessagesAndEndBatchImpl
  rw [bind_read]
  split
  · exact tidy
  · rename_i counted
    rw [← not_not.mp counted, countDuplicateMessages_fresh tidy]
    simp only [Bool.and_false, Bool.false_eq_true, if_false, Nat.add_zero, List.drop_zero]
    cases checkDelayedReads (messageCountOrZero db)
      (lastDelayedRead db (messageCountOrZero db) 0 ms) ms with
    | error e => exact tidy
    | ok _ =>
      rw [bind_lift_ok]
      split
      · exact tidy
      · intro i past
        rw [update_apply, final_ok, messageCountOrZero, count_write_writeMessages,
          Option.getD_some] at past
        rw [update_apply, final_ok, get_write_writeMessages, stored, if_neg (by omega)]
        exact tidy i (by omega)

end NitroRs.TransactionStreamer
