import NitroRs.Streamer.DelayedReads

/-! Retrying an append whose writes were cut off: which cuts the duplicate scan
of the second call makes up for. -/
namespace NitroRs
open KeyValue Outcome

namespace TransactionStreamer

/-- The writes of an append without the count at their end. -/
def messageWrites (track : Option Nat) : Nat → List MessageWithMetadataAndBlockInfo → List DbOp
  | _, [] => []
  | idx, m :: ms => writeMessage idx m track ++ messageWrites track (idx + 1) ms

theorem writeMessages_eq (track : Option Nat) (first : Nat) (ms : List MessageWithMetadataAndBlockInfo) :
    writeMessages track first ms =
      messageWrites track first ms ++ [.setCount .messageCount (first + ms.length)] := by
  induction ms generalizing first with
  | nil => rfl
  | cons m ms ih =>
    rw [writeMessages, messageWrites, ih, List.append_assoc, List.length_cons, Nat.add_assoc first,
      Nat.add_comm 1]

theorem messageWrites_append (track : Option Nat) (first : Nat)
    (ms ms' : List MessageWithMetadataAndBlockInfo) : messageWrites track first (ms ++ ms') =
      messageWrites track first ms ++ messageWrites track (first + ms.length) ms' := by
  induction ms generalizing first with
  | nil => rfl
  | cons m ms ih =>
    rw [List.cons_append, messageWrites, messageWrites, ih, List.append_assoc, List.length_cons,
      Nat.add_assoc first, Nat.add_comm 1]

/-- The message, its block hash, and at most one entry about its metadata. -/
theorem writeMessage_shape (idx : Nat) (m : MessageWithMetadataAndBlockInfo) (track : Option Nat) :
    ∃ metadata, writeMessage idx m track = .put .message idx m.messageWithMeta ::
        .put .blockHashInputFeed idx m.blockHash :: metadata ∧
      (metadata = [] ∨ ∃ t v, metadata = [.put t idx v] ∧
        (t = .blockMetadataInputFeed ∨ t = .missingBlockMetadataInputFeed)) := by
  refine ⟨_, rfl, ?_⟩
  split
  · exact .inl rfl
  · split
    · split
      · exact .inr ⟨_, _, rfl, .inl rfl⟩
      · exact .inr ⟨_, _, rfl, .inr rfl⟩
    · exact .inl rfl

/-- Where a cut can fall: within the entry of a message or right in front of it,
between the last message and the count, or behind the count. -/
theorem cut_cases (track : Option Nat) (first : Nat) (ms : List MessageWithMetadataAndBlockInfo) {k : Nat}
    (bound : k ≤ (writeMessages track first ms).length) :
    (∃ j m r, ms[j]? = some m ∧ r < (writeMessage (first + j) m track).length ∧
      k = (messageWrites track first (ms.take j)).length + r ∧
      (writeMessages track first ms).take k = messageWrites track first (ms.take j) ++
        (writeMessage (first + j) m track).take r) ∨
    (k = (messageWrites track first ms).length ∧
      (writeMessages track first ms).take k = messageWrites track first ms) ∨
    (k = (writeMessages track first ms).length ∧
      (writeMessages track first ms).take k = writeMessages track first ms) := by
  induction ms generalizing first k with
  | nil =>
    right
    match k, bound with
    | 0, _ => exact .inl ⟨rfl, rfl⟩
    | 1, _ => exact .inr ⟨rfl, rfl⟩
  | cons m ms ih =>
    by_cases within : k < (writeMessage first m track).length
    · refine .inl ⟨0, m, k, rfl, within, by simp [messageWrites], ?_⟩
      rw [writeMessages, List.take_append_of_le_length within.le]
      rfl
    · obtain ⟨k, rfl⟩ := Nat.exists_eq_add_of_le (not_lt.mp within)
      rw [writeMessages, List.length_append] at bound ⊢
      rw [List.take_length_add_append]
      rcases ih (first + 1) (by omega : k ≤ _) with
        ⟨j, m', r, here, short, position, cut⟩ | ⟨position, cut⟩ | ⟨position, cut⟩
      · have shift : first + 1 + j = first + (j + 1) := by omega
        rw [shift] at short cut
        refine .inl ⟨j + 1, m', r, here, short, ?_, ?_⟩
        · rw [List.take_succ_cons, messageWrites, List.length_append]
          omega
        · rw [List.take_succ_cons, messageWrites, cut, List.append_assoc]
      · refine .inr (.inl ⟨?_, ?_⟩)
        · rw [messageWrites, List.length_append, position]
        · rw [messageWrites, cut]
      · exact .inr (.inr ⟨by rw [position], by rw [cut]⟩)

theorem messageWrites_place (track : Option Nat) (first : Nat)
    (ms : List MessageWithMetadataAndBlockInfo) :
    ∀ op ∈ messageWrites track first ms, op.place ≠ .counter .messageCount := by
  induction ms generalizing first with
  | nil => exact fun op member => nomatch member
  | cons m ms ih =>
    intro op member
    rw [messageWrites, List.mem_append] at member
    rcases member with here | later
    · obtain ⟨ops, shape, places⟩ := writeMessage_place first m track
      rw [shape, List.mem_cons] at here
      rcases here with rfl | here
      · exact nofun
      · have listed := places op here
        intro place
        rw [place] at listed
        exact absurd listed (by decide)
    · exact ih (first + 1) op later

theorem count_write_messageWrites (db : Db) (track : Option Nat) (first : Nat)
    (ms : List MessageWithMetadataAndBlockInfo) :
    (db.write (messageWrites track first ms)).count .messageCount = db.count .messageCount :=
  db.count_write_of_untouched (messageWrites_place track first ms)

theorem get_write_messageWrites (db : Db) (track : Option Nat) (first : Nat)
    (ms : List MessageWithMetadataAndBlockInfo) (t : Table) (i : Nat) :
    (db.write (messageWrites track first ms)).get t i =
      if first ≤ i then ((ms[i - first]?).bind (column · track i t)).or (db.get t i)
      else db.get t i := by
  rw [← get_write_writeMessages_column, writeMessages_eq, Store.write_append, Store.write_cons,
    Store.write_nil, Store.get_apply_setCount]

/-- The duplicate scan runs to the end of what was written. -/
theorem countDuplicateMessages_written (db : Db) (first : Nat)
    (written rest : List MessageWithMetadataAndBlockInfo)
    (stored : ∀ (i : Nat) (m : MessageWithMetadataAndBlockInfo), written[i]? = some m →
      db.get .message (first + i) = some m.messageWithMeta)
    (absent : db.get .message (first + written.length) = none) :
    countDuplicateMessages db first (written ++ rest) = (written.length, false) := by
  induction written generalizing first with
  | nil =>
    cases rest with
    | nil => rfl
    | cons m rest =>
      rw [List.length_nil, Nat.add_zero] at absent
      simp only [List.nil_append, countDuplicateMessages, absent, List.length_nil]
  | cons m written ih =>
    have here := stored 0 m rfl
    rw [Nat.add_zero] at here
    have later := ih (first + 1) (fun i m' found => by
      rw [Nat.add_assoc, Nat.add_comm 1]
      exact stored (i + 1) m' found) (by
      rw [Nat.add_assoc, Nat.add_comm 1]
      exact absent)
    have duplicate : isDuplicate m.messageWithMeta m.messageWithMeta = true := by simp [isDuplicate]
    simp only [List.cons_append, countDuplicateMessages, here, duplicate, if_true, later,
      List.length_cons]

/-- The jump check of the messages behind the written ones passes if that of all messages does. -/
theorem checkDelayedReads_rest {db : Db} {first : Nat}
    (written rest : List MessageWithMetadataAndBlockInfo)
    (stored : ∀ (i : Nat) (m : MessageWithMetadataAndBlockInfo), written[i]? = some m →
      db.get .message (first + i) = some m.messageWithMeta)
    (counted : messageCountOrZero db = first)
    (passes : checkDelayedReads first (getPrevPrevDelayedRead db first) (written ++ rest) = .ok ()) :
    checkDelayedReads (first + written.length) (lastDelayedRead db first written.length (written ++ rest))
      rest = .ok () := by
  rw [checkDelayedReads_eq_ok] at passes ⊢
  unfold lastDelayedRead
  rw [List.drop_left]
  rcases List.eq_nil_or_concat' written with rfl | ⟨front, m, rfl⟩
  · simp only [List.length_nil, if_true, Nat.add_zero, counted, lt_irrefl, false_and, if_false]
    cases rest <;> exact passes
  · have last : (front ++ [m] ++ rest)[front.length]? = some m := by simp
    have previous : getPrevPrevDelayedRead db (first + (front ++ [m]).length) =
        m.messageWithMeta.delayedMessagesRead := by
      have here := stored front.length m (by simp)
      have position : first + (front ++ [m]).length - 1 = first + front.length := by
        rw [List.length_append, List.length_singleton]
        omega
      rw [getPrevPrevDelayedRead, if_neg (by simp), position, here]
      rfl
    have chain : List.IsChain (fun before read => read ≤ before + 1)
        (readsFrom m.messageWithMeta.delayedMessagesRead rest) := by
      have split : readsFrom (getPrevPrevDelayedRead db first) (front ++ [m] ++ rest) =
          readsFrom (getPrevPrevDelayedRead db first) front ++
            readsFrom m.messageWithMeta.delayedMessagesRead rest := by
        simp [readsFrom]
      rw [split] at passes
      exact passes.right_of_append
    rw [previous]
    simp only [List.length_append, List.length_singleton, Nat.add_sub_cancel, last, Option.map_some,
      Option.getD_some, Nat.add_eq_zero_iff, Nat.one_ne_zero, and_false, if_false]
    have same : (if m.messageWithMeta.delayedMessagesRead = 0 then m.messageWithMeta.delayedMessagesRead
        else m.messageWithMeta.delayedMessagesRead) = m.messageWithMeta.delayedMessagesRead := ite_self _
    rw [same]
    cases rest with
    | nil => exact List.isChain_singleton _
    | cons m' rest =>
      dsimp only
      split
      · refine List.isChain_cons_cons.mpr ⟨Nat.le_succ _, ?_⟩
        exact (List.isChain_cons_cons.mp chain).2
      · exact chain

/-- The second call on a store where the first messages of the append were written. -/
theorem retry_eq {db : Db} {first : Nat} (written rest : List MessageWithMetadataAndBlockInfo)
    (track : Option Nat) (counted : messageCountOrZero db = first)
    (stored : ∀ (i : Nat) (m : MessageWithMetadataAndBlockInfo), written[i]? = some m →
      db.get .message (first + i) = some m.messageWithMeta)
    (absent : db.get .message (first + written.length) = none)
    (passes : checkDelayedReads first (getPrevPrevDelayedRead db first) (written ++ rest) = .ok ()) :
    addConfirmedMessagesAndEndBatch first (written ++ rest) track db = .ok ()
      (if rest = [] then db else db.write (writeMessages track (first + written.length) rest)) := by
  have checked := checkDelayedReads_rest written rest stored counted passes
  unfold addConfirmedMessagesAndEndBatch addMessagesAndEndBatchImpl
  rw [bind_read, if_neg (not_not.mpr counted), countDuplicateMessages_written db first written rest
    stored absent]
  simp only [Bool.not_true, Bool.false_and, Bool.false_eq_true, if_false, List.drop_left, checked,
    bind_lift_ok]
  cases rest <;> rfl

theorem writeMessages_split (track : Option Nat) (first : Nat)
    (ms : List MessageWithMetadataAndBlockInfo) {j : Nat} (inside : j ≤ ms.length) :
    writeMessages track first ms = messageWrites track first (ms.take j) ++
      writeMessages track (first + j) (ms.drop j) := by
  have length : first + ms.length = first + j + (ms.drop j).length := by
    rw [List.length_drop]
    omega
  rw [writeMessages_eq, writeMessages_eq, ← List.append_assoc, length]
  congr 1
  conv_lhs => rw [← List.take_append_drop j ms]
  rw [messageWrites_append, List.length_take_of_le inside]

/-- The messages that a cut in front of message `j` leaves behind the count. -/
theorem written_take (db : Db) (track : Option Nat) (first : Nat)
    (ms : List MessageWithMetadataAndBlockInfo) (j : Nat) :
    ∀ (i : Nat) (m : MessageWithMetadataAndBlockInfo), (ms.take j)[i]? = some m →
      (db.write (messageWrites track first (ms.take j))).get .message (first + i) =
        some m.messageWithMeta := by
  intro i m here
  rw [get_write_messageWrites, if_pos (Nat.le_add_right _ _), Nat.add_sub_cancel_left, here]
  rfl

/-- Nothing is written at an index that is not among those of the messages. -/
theorem get_write_messageWrites_past (db : Db) (track : Option Nat) (first : Nat)
    (ms : List MessageWithMetadataAndBlockInfo) (t : Table) {i : Nat}
    (outside : i < first ∨ first + ms.length ≤ i) :
    (db.write (messageWrites track first ms)).get t i = db.get t i := by
  rw [get_write_messageWrites]
  split
  · rw [List.getElem?_eq_none (by omega)]
    rfl
  · rfl

end TransactionStreamer

open TransactionStreamer

section Cut
variable {db db' : Db} {n : Nat} {ms : List MessageWithMetadataAndBlockInfo} {track : Option Nat}

/-- What the append writes after its checks. -/
theorem accepted_eq (dense : Dense db) (counted : messageCountOrZero db = n) (nonempty : ms ≠ [])
    (accepted : addConfirmedMessagesAndEndBatch n ms track db = .ok () db') :
    checkDelayedReads n (getPrevPrevDelayedRead db n) ms = .ok () ∧
      db' = db.write (writeMessages track n ms) := by
  rcases append_cases dense.nothingPast n true ms track with
    ⟨apart, _⟩ | ⟨_, ⟨e, _, refused⟩ | ⟨passes, done⟩⟩
  · exact absurd counted.symm apart
  · rw [addConfirmedMessagesAndEndBatch, refused] at accepted
    contradiction
  · rw [addConfirmedMessagesAndEndBatch, done, if_neg nonempty] at accepted
    cases accepted
    exact ⟨passes, rfl⟩

/-- The count in front of the append is read from what the append does not write. -/
theorem getPrevPrevDelayedRead_congr {s : Db} (below : ∀ i < n, s.get .message i = db.get .message i) :
    getPrevPrevDelayedRead s n = getPrevPrevDelayedRead db n := by
  unfold getPrevPrevDelayedRead
  split
  · rfl
  · rw [below _ (by omega)]

/-- A cut in front of a message: the retry writes the rest. -/
theorem retry_boundary (dense : Dense db) (counted : messageCountOrZero db = n)
    (passes : checkDelayedReads n (getPrevPrevDelayedRead db n) ms = .ok ()) {j : Nat}
    (inside : j < ms.length) :
    addConfirmedMessagesAndEndBatch n ms track (db.write (messageWrites track n (ms.take j))) =
      .ok () (db.write (writeMessages track n ms)) := by
  have length : (ms.take j).length = j := List.length_take_of_le inside.le
  have below : ∀ i < n, (db.write (messageWrites track n (ms.take j))).get .message i =
      db.get .message i := fun i low => get_write_messageWrites_past db track n _ _ (.inl low)
  have count : messageCountOrZero (db.write (messageWrites track n (ms.take j))) = n := by
    rw [messageCountOrZero, count_write_messageWrites, ← counted, messageCountOrZero]
  have absent : (db.write (messageWrites track n (ms.take j))).get .message (n + (ms.take j).length) =
      none := by
    rw [get_write_messageWrites_past db track n _ _ (.inr le_rfl)]
    exact dense.absent (by omega) _ (by simp)
  have retried := retry_eq (ms.take j) (ms.drop j) track count (written_take db track n ms j) absent
    (by rwa [List.take_append_drop, getPrevPrevDelayedRead_congr below])
  have some : ms.drop j ≠ [] := by
    rw [ne_eq, List.drop_eq_nil_iff]
    omega
  rw [List.take_append_drop, if_neg some, length, ← Store.write_append,
    ← writeMessages_split track n ms inside.le] at retried
  exact retried

/-- A cut within an entry leaves the message, and misses another part of it. -/
theorem cut_entry (s : Db) (idx : Nat) (m : MessageWithMetadataAndBlockInfo) (track : Option Nat)
    {r : Nat} (positive : 0 < r) (short : r < (writeMessage idx m track).length) :
    (∀ i, (s.write ((writeMessage idx m track).take r)).get .message i =
      if idx = i then some m.messageWithMeta else s.get .message i) ∧
    ∃ t ∈ [Table.message, .blockHashInputFeed, .blockMetadataInputFeed,
        .missingBlockMetadataInputFeed], (column m track idx t).isSome ∧
      ∀ i, (s.write ((writeMessage idx m track).take r)).get t i = s.get t i := by
  obtain ⟨metadata, shape, parts⟩ := writeMessage_shape idx m track
  rw [shape] at short
  obtain ⟨k, rfl⟩ := Nat.exists_eq_succ_of_ne_zero positive.ne'
  rcases parts with rfl | ⟨t, v, rfl, listed⟩
  · obtain rfl : k = 0 := by
      simp only [List.length_cons, List.length_nil] at short
      omega
    rw [shape]
    refine ⟨fun i => by simp, .blockHashInputFeed, by simp, rfl, fun i => ?_⟩
    simp [Store.get_apply_put_of_ne]
  · have filled : column m track idx t = some v := by
      have whole := get_write_writeMessage_column .empty idx m track t idx
      rw [shape, if_pos rfl] at whole
      simpa using whole.symm
    have apart : t ≠ .message ∧ t ≠ .blockHashInputFeed := by
      rcases listed with rfl | rfl <;> decide
    rw [shape]
    match k with
    | 0 =>
      refine ⟨fun i => by simp, .blockHashInputFeed, by simp, rfl, fun i => ?_⟩
      simp [Store.get_apply_put_of_ne]
    | 1 =>
      refine ⟨fun i => by simp [Store.get_apply_put_of_ne], t, ?_, by rw [filled]; rfl, fun i => ?_⟩
      · rcases listed with rfl | rfl <;> simp
      · simp [Store.get_apply_put_of_ne, apart]
    | k + 2 =>
      simp only [List.length_cons, List.length_nil] at short
      omega

/-- A cut within the entry of message `j`: it counts as stored, and its other
entries are never written. -/
theorem retry_within (dense : Dense db) (counted : messageCountOrZero db = n)
    (passes : checkDelayedReads n (getPrevPrevDelayedRead db n) ms = .ok ()) {j r : Nat}
    {m : MessageWithMetadataAndBlockInfo} (here : ms[j]? = some m) (positive : 0 < r)
    (short : r < (writeMessage (n + j) m track).length) :
    addConfirmedMessagesAndEndBatch n ms track (db.write (messageWrites track n (ms.take j) ++
        (writeMessage (n + j) m track).take r)) ≠ .ok () (db.write (writeMessages track n ms)) := by
  have inside := (List.getElem?_eq_some_iff.mp here).1
  have length : (ms.take j).length = j := List.length_take_of_le inside.le
  have length' : (ms.take (j + 1)).length = j + 1 := List.length_take_of_le inside
  obtain ⟨messages, t, listed, filled, missed⟩ :=
    cut_entry (db.write (messageWrites track n (ms.take j))) (n + j) m track positive short
  rw [← Store.write_append] at messages missed
  generalize cut : db.write (messageWrites track n (ms.take j) ++
    (writeMessage (n + j) m track).take r) = s at messages missed ⊢
  have count : messageCountOrZero s = n := by
    have single : writeMessage (n + j) m track = messageWrites track (n + j) [m] := by
      rw [messageWrites, messageWrites, List.append_nil]
    rw [← cut, messageCountOrZero, Store.write_append, Store.count_write_of_untouched,
      count_write_messageWrites, ← counted, messageCountOrZero]
    intro op member
    rw [single] at member
    exact messageWrites_place track (n + j) [m] op (List.mem_of_mem_take member)
  have below : ∀ i < n, s.get .message i = db.get .message i := by
    intro i low
    rw [messages, if_neg (by omega), get_write_messageWrites_past db track n _ _ (.inl low)]
  have stored : ∀ (i : Nat) (m' : MessageWithMetadataAndBlockInfo), (ms.take (j + 1))[i]? = some m' →
      s.get .message (n + i) = some m'.messageWithMeta := by
    intro i m' found
    obtain ⟨bound, _⟩ := List.getElem?_eq_some_iff.mp found
    rw [List.getElem?_take_of_lt (by omega)] at found
    rw [messages]
    by_cases last : i = j
    · subst last
      cases here.symm.trans found
      rw [if_pos rfl]
    · rw [if_neg (by omega)]
      exact written_take db track n ms j i m' (by rwa [List.getElem?_take_of_lt (by omega)])
  have absent : s.get .message (n + (ms.take (j + 1)).length) = none := by
    rw [messages, if_neg (by omega), get_write_messageWrites_past db track n _ _ (.inr (by omega))]
    exact dense.absent (by omega) _ (by simp)
  have retried := retry_eq (ms.take (j + 1)) (ms.drop (j + 1)) track count stored absent
    (by rwa [List.take_append_drop, getPrevPrevDelayedRead_congr below])
  rw [List.take_append_drop] at retried
  rw [retried]
  intro same
  have missing : s.get t (n + j) = none := by
    rw [missed, get_write_messageWrites_past db track n _ _ (.inr (by omega))]
    exact dense.absent (by omega) t listed
  have differs := congrArg (fun r => (final r).get t (n + j)) same
  simp only [final_ok] at differs
  rw [get_write_writeMessages_column, if_pos (Nat.le_add_right _ _), Nat.add_sub_cancel_left, here,
    Option.bind_some] at differs
  have unwritten : (if ms.drop (j + 1) = [] then s else s.write (writeMessages track
      (n + (ms.take (j + 1)).length) (ms.drop (j + 1)))).get t (n + j) = none := by
    split
    · exact missing
    · rw [get_write_writeMessages_column, if_neg (by omega), missing]
  rw [unwritten] at differs
  obtain ⟨v, value⟩ := Option.isSome_iff_exists.mp filled
  rw [value] at differs
  contradiction

/-- Retrying an append completes it exactly when the cut fell in front of a message:
not within its entry, not in front of the count, and not behind it. -/
theorem retry_completes_iff (dense : Dense db) (counted : messageCountOrZero db = n)
    (nonempty : ms ≠ [])
    (accepted : addConfirmedMessagesAndEndBatch n ms track db = .ok () db') :
    db' = db.write (writeMessages track n ms) ∧
      ∀ k ≤ (writeMessages track n ms).length,
        (addConfirmedMessagesAndEndBatch n ms track (db.write ((writeMessages track n ms).take k)) =
            .ok () db' ↔
          ∃ j < ms.length, k = (messageWrites track n (ms.take j)).length) := by
  obtain ⟨passes, rfl⟩ := accepted_eq dense counted nonempty accepted
  refine ⟨rfl, fun k bound => ⟨fun completed => ?_, ?_⟩⟩
  · have positive : 0 < ms.length := List.length_pos_iff.mpr nonempty
    have final_count : (db.write (writeMessages track n ms)).count .messageCount =
        some (n + ms.length) := count_write_writeMessages _ _ _ _
    rcases cut_cases track n ms bound with
      ⟨j, m, r, here, short, position, cut⟩ | ⟨_, cut⟩ | ⟨_, cut⟩
    · rcases Nat.eq_zero_or_pos r with rfl | inner
      · exact ⟨j, (List.getElem?_eq_some_iff.mp here).1, position⟩
      · rw [cut] at completed
        exact absurd completed (retry_within dense counted passes here inner short)
    · -- all messages are found stored, and the count is never written
      rw [cut] at completed
      have below : ∀ i < n, (db.write (messageWrites track n ms)).get .message i =
          db.get .message i := fun i low => get_write_messageWrites_past db track n _ _ (.inl low)
      have count : messageCountOrZero (db.write (messageWrites track n ms)) = n := by
        rw [messageCountOrZero, count_write_messageWrites, ← counted, messageCountOrZero]
      have stored := written_take db track n ms ms.length
      rw [List.take_length] at stored
      have absent : (db.write (messageWrites track n ms)).get .message (n + ms.length) = none := by
        rw [get_write_messageWrites_past db track n _ _ (.inr le_rfl)]
        exact dense.absent (by omega) _ (by simp)
      have retried := retry_eq ms [] track count stored absent
        (by rwa [List.append_nil, getPrevPrevDelayedRead_congr below])
      rw [List.append_nil, if_pos rfl, completed] at retried
      have same := congrArg (fun r => messageCountOrZero (final r)) retried
      simp only [final_ok] at same
      rw [count, messageCountOrZero, final_count, Option.getD_some] at same
      omega
    · -- the second call finds a count that is past its first index
      rw [cut, addConfirmedMessagesAndEndBatch, addMessagesAndEndBatchImpl, bind_read, if_pos ?_]
        at completed
      · contradiction
      · rw [messageCountOrZero, final_count, Option.getD_some]
        omega
  · rintro ⟨j, inside, rfl⟩
    rw [writeMessages_split track n ms inside.le, List.take_left,
      ← writeMessages_split track n ms inside.le]
    exact retry_boundary dense counted passes inside

end Cut

section Samples

/-- Cut in front of the second of two messages, an append is completed by its retry. -/
theorem retry_between_messages_completes : ∃ db',
    addConfirmedMessagesAndEndBatch 0 [readingMessage 0, readingMessage 1] none .empty = .ok () db' ∧
      addConfirmedMessagesAndEndBatch 0 [readingMessage 0, readingMessage 1] none
        (Store.write .empty ((writeMessages none 0 [readingMessage 0, readingMessage 1]).take 2)) =
          .ok () db' := by
  obtain ⟨db', accepted⟩ : ∃ db', addConfirmedMessagesAndEndBatch 0
      [readingMessage 0, readingMessage 1] none .empty = .ok () db' := ⟨_, rfl⟩
  refine ⟨db', accepted, ?_⟩
  have empty : EmptyStore .empty := ⟨rfl, fun t _ i => Store.get_empty t i⟩
  have completes := retry_completes_iff empty.dense rfl (List.cons_ne_nil _ _) accepted
  exact (completes.2 2 (by decide)).mpr ⟨1, by decide, rfl⟩

/-- Cut behind the message itself, an append of one message is never completed. -/
theorem retry_within_entry_fails : ∃ db',
    addConfirmedMessagesAndEndBatch 0 [readingMessage 0] none .empty = .ok () db' ∧
      addConfirmedMessagesAndEndBatch 0 [readingMessage 0] none
        (Store.write .empty ((writeMessages none 0 [readingMessage 0]).take 1)) ≠ .ok () db' := by
  refine ⟨_, rfl, fun completed => ?_⟩
  have count := congrArg (fun r => messageCountOrZero (final r)) completed
  exact absurd count (by decide +kernel)

end Samples
end NitroRs
