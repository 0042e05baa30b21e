import NitroRs.Streamer.DelayedReads

/-! Confirmed messages against what the store holds already. The code that compares
and replaces stored messages sits behind a guard that only lets appends at the count through. -/
namespace NitroRs
open KeyValue Outcome TransactionStreamer

section
variable {db db' : Db} {first n : Nat} {ms : List MessageWithMetadataAndBlockInfo} {track : Option Nat}

/-- A stored message differs from the one that is confirmed for its index. -/
def Conflicts (db : Db) (first : Nat) (ms : List MessageWithMetadataAndBlockInfo) : Prop :=
  ∃ j m s, ms[j]? = some m ∧ db.get .message (first + j) = some s ∧ isDuplicate s m.messageWithMeta = false

/-- The confirmed messages stand from `first` on: nothing in front of them changes, and
what lies behind them goes with a conflict and stays without one. -/
structure Overrides (db db' : Db) (first : Nat) (ms : List MessageWithMetadataAndBlockInfo) : Prop where
  before : ∀ i < first, db'.get .message i = db.get .message i
  confirmed : ∀ j m, ms[j]? = some m → ∃ s, db'.get .message (first + j) = some s ∧
    isDuplicate s m.messageWithMeta = true
  replaced : Conflicts db first ms → ∀ i, first + ms.length ≤ i → db'.get .message i = none
  kept : ¬ Conflicts db first ms → ∀ i, first + ms.length ≤ i → db'.get .message i = db.get .message i

/-- The delayed counts of a list step by 0 or 1 from that of the message in front of it. -/
def StepsFrom (db : Db) (first : Nat) (ms : List MessageWithMetadataAndBlockInfo) : Prop :=
  List.IsChain (fun before read => read = before ∨ read = before + 1)
    (readsFrom (getPrevPrevDelayedRead db first) ms)

theorem isDuplicate_self (m : MessageWithMetadata) : isDuplicate m m = true := by
  simp [isDuplicate]

theorem overrides_nil (db : Db) (first : Nat) : Overrides db db first [] where
  before _ _ := rfl
  confirmed j m here := nomatch here
  replaced conflict := by
    obtain ⟨j, m, s, here, _⟩ := conflict
    exact nomatch here
  kept _ _ _ := rfl

/-- Nothing at the count can conflict. -/
theorem overrides_append (tidy : NothingPastCount db) :
    Overrides db (db.write (writeMessages track (messageCountOrZero db) ms)) (messageCountOrZero db) ms := by
  have none : ¬ Conflicts db (messageCountOrZero db) ms := by
    rintro ⟨j, m, s, _, here, _⟩
    rw [tidy _ (Nat.le_add_right _ j)] at here
    contradiction
  refine ⟨?_, ?_, fun conflict => absurd conflict none, ?_⟩
  · intro i below
    rw [get_write_writeMessages, stored, if_neg (by omega)]
  · intro j m here
    have inside := (List.getElem?_eq_some_iff.mp here).1
    refine ⟨m.messageWithMeta, ?_, isDuplicate_self _⟩
    rw [get_write_writeMessages, stored, if_pos (by omega), Nat.add_sub_cancel_left, here, Option.map_some]
  · intro _ i past
    rw [get_write_writeMessages, stored, if_neg (by omega)]

/-- On a dense store the confirmed messages take their places exactly when they start at
the message count: from any earlier index on the call is refused. -/
theorem confirmed_override_iff (dense : Dense db) (counted : getMessageCount db = .ok n)
    (positive : 1 ≤ first) (inside : first ≤ n) (steps : StepsFrom db first ms) :
    (∃ db', addConfirmedMessagesAndEndBatch first ms track db = .ok () db' ∧ Overrides db db' first ms) ↔
      first = n := by
  have count : messageCountOrZero db = n := by
    rw [getMessageCount, Db.readCount] at counted
    cases known : db.count .messageCount with
    | none =>
      rw [known] at counted
      contradiction
    | some c =>
      rw [known, Except.ok.injEq] at counted
      rw [messageCountOrZero, known, Option.getD_some, counted]
  rcases append_cases dense.nothingPast first true ms track with
    ⟨apart, refused⟩ | ⟨rfl, ⟨e, jump, _⟩ | ⟨_, appended⟩⟩
  · rw [count] at apart
    refine iff_of_false ?_ apart
    rintro ⟨db', done, _⟩
    cases refused.symm.trans done
  · have smooth : checkDelayedReads (messageCountOrZero db)
        (getPrevPrevDelayedRead db (messageCountOrZero db)) ms = .ok () := by
      apply checkDelayedReads_eq_ok.mpr
      exact steps.imp fun before read step => by omega
    rw [smooth] at jump
    contradiction
  · refine iff_of_true ⟨_, appended, ?_⟩ count
    split
    · rename_i empty
      subst empty
      exact overrides_nil db _
    · exact overrides_append dense.nothingPast

end

section Samples

/-- A store with two messages, the second one from the feed. -/
def fedStore : Db :=
  StreamerOp.execute .empty (.add 0 [readingMessage 0, readingMessage 1] none)

theorem fedStore_dense : Dense fedStore :=
  (StreamerOp.dense_execute (EmptyStore.dense ⟨rfl, fun _ _ _ => rfl⟩) (.add 0 _ none)).mpr trivial

theorem fedStore_count : getMessageCount fedStore = .ok 2 := by decide +kernel

theorem fedStore_reads : getPrevPrevDelayedRead fedStore 2 = 1 ∧ getPrevPrevDelayedRead fedStore 1 = 0 :=
  ⟨by decide +kernel, by decide +kernel⟩

/-- A confirmed message at the count is appended. -/
theorem confirmed_at_count : ∃ db', addConfirmedMessagesAndEndBatch 2 [readingMessage 2] none fedStore =
    .ok () db' ∧ Overrides fedStore db' 2 [readingMessage 2] := by
  have steps : StepsFrom fedStore 2 [readingMessage 2] := by
    rw [StepsFrom, fedStore_reads.1]
    simp [readsFrom, readingMessage]
  exact (confirmed_override_iff fedStore_dense fedStore_count (by decide) le_rfl steps).mpr rfl

/-- L1 confirms another message in place of the second one. -/
theorem confirmed_conflict_refused : Dense fedStore ∧ getMessageCount fedStore = .ok 2 ∧
    StepsFrom fedStore 1 [readingMessage 0] ∧ Conflicts fedStore 1 [readingMessage 0] ∧
    addConfirmedMessagesAndEndBatch 1 [readingMessage 0] none fedStore =
      .error (.nonContiguousAppend 2 1) fedStore ∧
    ¬ ∃ db', addConfirmedMessagesAndEndBatch 1 [readingMessage 0] none fedStore = .ok () db' ∧
      Overrides fedStore db' 1 [readingMessage 0] := by
  have steps : StepsFrom fedStore 1 [readingMessage 0] := by
    rw [StepsFrom, fedStore_reads.2]
    simp [readsFrom, readingMessage]
  have conflict : Conflicts fedStore 1 [readingMessage 0] :=
    ⟨0, readingMessage 0, (readingMessage 1).messageWithMeta, rfl, by decide +kernel, by decide +kernel⟩
  have count : messageCountOrZero fedStore = 2 := by decide +kernel
  have refused : addConfirmedMessagesAndEndBatch 1 [readingMessage 0] none fedStore =
      .error (.nonContiguousAppend 2 1) fedStore := by
    rcases append_cases fedStore_dense.nothingPast 1 true [readingMessage 0] none with
      ⟨_, refused⟩ | ⟨same, _⟩
    · rw [count] at refused
      exact refused
    · rw [count] at same
      contradiction
  refine ⟨fedStore_dense, fedStore_count, steps, conflict, refused, ?_⟩
  rintro ⟨db', done, _⟩
  cases refused.symm.trans done

end Samples
end NitroRs
