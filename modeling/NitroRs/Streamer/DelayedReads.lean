import NitroRs.Streamer.Density
import Mathlib.Data.List.Chain

/-! The delayed counts of the stored messages: an append admits any message that
reads at most one more than its predecessor, also one that reads less. -/
namespace NitroRs
open KeyValue Outcome

namespace TransactionStreamer

/-- The delayed counts of a list of messages, behind the one in front of them. -/
def readsFrom (last : Nat) (ms : List MessageWithMetadataAndBlockInfo) : List Nat :=
  last :: ms.map (·.messageWithMeta.delayedMessagesRead)

theorem checkDelayedReads_eq_ok {idx last : Nat} {ms : List MessageWithMetadataAndBlockInfo} :
    checkDelayedReads idx last ms = .ok () ↔
      List.IsChain (fun before read => read ≤ before + 1) (readsFrom last ms) := by
  induction ms generalizing idx last with
  | nil => simp [checkDelayedReads, readsFrom]
  | cons m ms ih =>
    rw [checkDelayedReads, readsFrom, List.map_cons, List.isChain_cons_cons]
    by_cases jump : 1 < m.messageWithMeta.delayedMessagesRead - last
    · rw [if_pos jump]
      exact iff_of_false nofun fun both => by omega
    · rw [if_neg jump, ih]
      exact (and_iff_right (by omega)).symm

end TransactionStreamer

open TransactionStreamer

def readsAt (db : Db) (i : Nat) : Option Nat := (db.get .message i).map (·.delayedMessagesRead)

/-- Each message reads as many delayed messages as the one in front of it, or one more. -/
structure ReadsAdvance (db : Db) : Prop where
  first : ∀ r, readsAt db 0 = some r → r = 0 ∨ r = 1
  next : ∀ i r r', i + 1 < messageCountOrZero db → readsAt db i = some r →
    readsAt db (i + 1) = some r' → r' = r ∨ r' = r + 1

theorem readsAdvance_iff {db : Db} (dense : Dense db) : ReadsAdvance db ↔
    ∀ i r, readsAt db i = some r →
      getPrevPrevDelayedRead db i ≤ r ∧ r ≤ getPrevPrevDelayedRead db i + 1 := by
  have before (i : Nat) : getPrevPrevDelayedRead db (i + 1) = (readsAt db i).getD 0 := by
    rw [getPrevPrevDelayedRead, if_neg (Nat.succ_ne_zero i), Nat.add_sub_cancel, readsAt]
  have inside {i r : Nat} (stored : readsAt db i = some r) : i < messageCountOrZero db := by
    rw [← dense.message, Store.has]
    obtain ⟨m, found, _⟩ := Option.map_eq_some_iff.mp stored
    rw [found]
    rfl
  constructor
  · intro advance i r stored
    cases i with
    | zero =>
      have small := advance.first r stored
      change 0 ≤ r ∧ r ≤ 0 + 1
      omega
    | succ i =>
      have filled : db.has .message i := (dense.message i).mpr (Nat.lt_of_succ_lt (inside stored))
      obtain ⟨m, found⟩ := Option.isSome_iff_exists.mp filled
      have previous : readsAt db i = some m.delayedMessagesRead := by rw [readsAt, found]; rfl
      have step := advance.next i _ r (inside stored) previous stored
      rw [before, previous, Option.getD_some]
      omega
  · intro advance
    constructor
    · intro r stored
      have small := advance 0 r stored
      change 0 ≤ r ∧ r ≤ 0 + 1 at small
      omega
    · intro i r r' _ previous stored
      have step := advance (i + 1) r' stored
      rw [before, previous, Option.getD_some] at step
      omega

/-- The delayed counts after messages were appended at the count. -/
theorem readsAt_append (db : Db) (ms : List MessageWithMetadataAndBlockInfo) (track : Option Nat)
    (tidy : NothingPastCount db) (i : Nat) :
    readsAt (db.write (writeMessages track (messageCountOrZero db) ms)) i =
      if messageCountOrZero db ≤ i then
        (ms[i - messageCountOrZero db]?).map (·.messageWithMeta.delayedMessagesRead)
      else readsAt db i := by
  rw [readsAt, get_write_writeMessages_column]
  by_cases past : messageCountOrZero db ≤ i
  · rw [if_pos past, if_pos past, tidy i past, Option.or_none]
    cases ms[i - messageCountOrZero db]? <;> rfl
  · rw [if_neg past, if_neg past]
    rfl

/-- The count in front of an appended message. -/
theorem getPrevPrevDelayedRead_append {db : Db} (tidy : NothingPastCount db)
    (ms : List MessageWithMetadataAndBlockInfo) (track : Option Nat) {j : Nat} (inside : j ≤ ms.length) :
    (readsFrom (getPrevPrevDelayedRead db (messageCountOrZero db)) ms)[j]? = some
      (getPrevPrevDelayedRead (db.write (writeMessages track (messageCountOrZero db) ms))
        (messageCountOrZero db + j)) := by
  have lookup := readsAt_append db ms track tidy
  cases j with
  | zero =>
    rw [readsFrom, List.getElem?_cons_zero, Nat.add_zero]
    congr 1
    unfold getPrevPrevDelayedRead
    by_cases init : messageCountOrZero db = 0
    · rw [if_pos init, if_pos init]
    · have here := lookup (messageCountOrZero db - 1)
      rw [if_neg (by omega)] at here
      rw [if_neg init, if_neg init]
      exact congrArg (Option.getD · 0) here.symm
  | succ j =>
    have here := lookup (messageCountOrZero db + j)
    rw [if_pos (by omega), Nat.add_sub_cancel_left, List.getElem?_eq_getElem (by omega),
      Option.map_some] at here
    rw [readsFrom, List.getElem?_cons_succ, List.getElem?_map, List.getElem?_eq_getElem (by omega),
      getPrevPrevDelayedRead, if_neg (by omega)]
    exact congrArg some (congrArg (Option.getD · 0) here).symm

/-- Appended messages advance exactly when each reads as much as its predecessor or one more. -/
theorem readsAdvance_append {db : Db} (dense : Dense db) (advance : ReadsAdvance db)
    (ms : List MessageWithMetadataAndBlockInfo) (track : Option Nat) :
    ReadsAdvance (db.write (writeMessages track (messageCountOrZero db) ms)) ↔
      List.IsChain (fun before read => before ≤ read ∧ read ≤ before + 1)
        (readsFrom (getPrevPrevDelayedRead db (messageCountOrZero db)) ms) := by
  have lookup := readsAt_append db ms track dense.nothingPast
  have before {j : Nat} := @getPrevPrevDelayedRead_append db dense.nothingPast ms track j
  have dense' : Dense (db.write (writeMessages track (messageCountOrZero db) ms)) :=
    ((dense.replaced_append ms track).dense_iff dense).mpr le_rfl
  rw [readsAdvance_iff dense'] 
  rw [readsAdvance_iff dense] at advance
  rw [List.isChain_iff_getElem]
  have length : (readsFrom (getPrevPrevDelayedRead db (messageCountOrZero db)) ms).length =
      ms.length + 1 := by simp [readsFrom]
  constructor
  · intro all j short
    have inside : j < ms.length := by omega
    have stored := lookup (messageCountOrZero db + j)
    rw [if_pos (by omega), Nat.add_sub_cancel_left, List.getElem?_eq_getElem inside,
      Option.map_some] at stored
    have step := all _ _ stored
    obtain ⟨_, front⟩ := List.getElem?_eq_some_iff.mp (before inside.le)
    rw [← front] at step
    simpa only [readsFrom, List.getElem_cons_succ, List.getElem_map] using step
  · intro chain i r stored
    rw [lookup] at stored
    by_cases past : messageCountOrZero db ≤ i
    · obtain ⟨j, rfl⟩ := Nat.exists_eq_add_of_le past
      rw [if_pos past, Nat.add_sub_cancel_left] at stored
      obtain ⟨m, here, rfl⟩ := Option.map_eq_some_iff.mp stored
      obtain ⟨inside, rfl⟩ := List.getElem?_eq_some_iff.mp here
      have step := chain j (by omega)
      obtain ⟨_, front⟩ := List.getElem?_eq_some_iff.mp (before inside.le)
      rw [← front]
      simpa only [readsFrom, List.getElem_cons_succ, List.getElem_map] using step
    · rw [if_neg past] at stored
      have same : getPrevPrevDelayedRead (db.write (writeMessages track (messageCountOrZero db) ms)) i =
          getPrevPrevDelayedRead db i := by
        have here := lookup (i - 1)
        rw [if_neg (by omega)] at here
        unfold getPrevPrevDelayedRead
        split
        · rfl
        · exact congrArg (Option.getD · 0) here
      rw [same]
      exact advance i r stored

/-- A reorg keeps what is in front of it. -/
theorem readsAdvance_reorg {db : Db} (advance : ReadsAdvance db) {first : Nat} (positive : 0 < first)
    (inside : first ≤ messageCountOrZero db) :
    ReadsAdvance (final (reorgAtAndEndBatch first db)) := by
  have replaced := replaced_reorg positive [] none db
  have lookup (i r : Nat) (stored : readsAt (final (reorgAtAndEndBatch first db)) i = some r) :
      readsAt db i = some r := by
    rw [readsAt, reorgAtAndEndBatch, replaced.get .message (by simp)] at stored
    split at stored
    · simp at stored
    · exact stored
  constructor
  · exact fun r stored => advance.first r (lookup 0 r stored)
  · intro i r r' below previous stored
    have count := replaced.count
    rw [reorgAtAndEndBatch] at below
    rw [List.length_nil] at count
    exact advance.next i r r' (by omega) (lookup i r previous) (lookup (i + 1) r' stored)

namespace StreamerOp

/-- The operations of the `Streamer` trait, with reorgs between 1 and the count. -/
def InTrait (op : StreamerOp) (db : Db) : Prop :=
  match op with
  | add .. | addConfirmed .. => True
  | addAndReorg .. => False
  | reorgAt first => 0 < first ∧ first ≤ messageCountOrZero db

/-- Messages that are appended without a jump do not read less than their predecessors. -/
def NeverDecreases (op : StreamerOp) (db : Db) : Prop :=
  match op with
  | add first ms _ | addConfirmed first ms _ => first = messageCountOrZero db →
      checkDelayedReads first (getPrevPrevDelayedRead db first) ms = .ok () →
        List.IsChain (· ≤ ·) (readsFrom (getPrevPrevDelayedRead db first) ms)
  | addAndReorg .. | reorgAt _ => True

theorem readsAdvance_add {db : Db} (dense : Dense db) (advance : ReadsAdvance db) (first : Nat)
    (confirmed : Bool) (ms : List MessageWithMetadataAndBlockInfo) (track : Option Nat) :
    ReadsAdvance (final (addMessagesAndEndBatchImpl first confirmed ms track db)) ↔
      (first = messageCountOrZero db →
        checkDelayedReads first (getPrevPrevDelayedRead db first) ms = .ok () →
          List.IsChain (· ≤ ·) (readsFrom (getPrevPrevDelayedRead db first) ms)) := by
  rcases append_cases dense.nothingPast first confirmed ms track with
    ⟨apart, refused⟩ | ⟨rfl, ⟨e, jumps, refused⟩ | ⟨passes, accepted⟩⟩
  · rw [refused]
    exact iff_of_true advance fun counted => absurd counted apart
  · rw [refused]
    exact iff_of_true advance fun _ passes => by
      rw [jumps] at passes
      contradiction
  · rw [accepted, final_ok]
    have small := checkDelayedReads_eq_ok.mp passes
    have both : List.IsChain (fun before read => before ≤ read ∧ read ≤ before + 1)
          (readsFrom (getPrevPrevDelayedRead db (messageCountOrZero db)) ms) ↔
        List.IsChain (· ≤ ·) (readsFrom (getPrevPrevDelayedRead db (messageCountOrZero db)) ms) := by
      simp only [List.isChain_iff_getElem] at small ⊢
      exact forall₂_congr fun i inside => and_iff_left (small i inside)
    by_cases empty : ms = []
    · subst empty
      rw [if_pos rfl]
      exact iff_of_true advance fun _ _ => List.isChain_singleton _
    · rw [if_neg empty, readsAdvance_append dense advance, both]
      exact ⟨fun chain _ _ => chain, fun chain => chain rfl passes⟩

theorem readsAdvance_execute {db : Db} (dense : Dense db) (op : StreamerOp) (allowed : op.InTrait db)
    (advance : ReadsAdvance db) : ReadsAdvance (execute db op) ↔ op.NeverDecreases db := by
  cases op with
  | add first ms track => exact readsAdvance_add dense advance first false ms track
  | addConfirmed first ms track => exact readsAdvance_add dense advance first true ms track
  | addAndReorg => exact allowed.elim
  | reorgAt first => exact iff_of_true (readsAdvance_reorg advance allowed.1 allowed.2) trivial

theorem InTrait.inRange {op : StreamerOp} {db : Db} (allowed : op.InTrait db) : op.InRange db := by
  cases op with
  | add | addConfirmed => trivial
  | addAndReorg => exact allowed.elim
  | reorgAt first => exact allowed.2

end StreamerOp

/-- The delayed counts of a run advance one at a time in every state exactly when
no append decreases them. -/
theorem delayed_reads_run_iff {start : Db} (empty : EmptyStore start) (ops : List StreamerOp)
    (allowed : ∀ n (op : StreamerOp), ops[n]? = some op →
      op.InTrait (StreamerOp.run start (ops.take n))) :
    (∀ n, ReadsAdvance (StreamerOp.run start (ops.take n))) ↔
      ∀ n (op : StreamerOp), ops[n]? = some op →
        op.NeverDecreases (StreamerOp.run start (ops.take n)) := by
  have kept (db : Db) (op : StreamerOp) (dense : Dense db) (allowed : op.InTrait db) :
      Dense (StreamerOp.execute db op) := (StreamerOp.dense_execute dense op).mpr allowed.inRange
  have nothing (i : Nat) : readsAt start i = none := by rw [readsAt, empty.empty _ rfl]; rfl
  exact Runs.forall_foldl_iff Dense StreamerOp.InTrait kept
    (fun db op dense allowed => StreamerOp.readsAdvance_execute dense op allowed) ops allowed empty.dense
    ⟨fun r stored => by rw [nothing] at stored; contradiction,
      fun i r _ _ stored => by rw [nothing] at stored; contradiction⟩

section Samples

def readingMessage (reads : Nat) : MessageWithMetadataAndBlockInfo :=
  ⟨⟨⟨⟨3, .zero, 0, 0, none, 0⟩, [], none⟩, reads⟩, none, none⟩

/-- Counts 0, 1, 1, with a refused jump and a reorg between them. -/
theorem steady_appends_advance : ReadsAdvance (StreamerOp.run .empty
    [.addConfirmed 0 [readingMessage 0, readingMessage 1] none,
      .add 2 [readingMessage 3] none, .reorgAt 1, .add 1 [readingMessage 1] none]) := by
  refine (delayed_reads_run_iff ⟨rfl, fun _ _ _ => rfl⟩ [.addConfirmed 0 [readingMessage 0,
    readingMessage 1] none, .add 2 [readingMessage 3] none, .reorgAt 1,
    .add 1 [readingMessage 1] none] (fun n op here => ?_)).mpr (fun n op here => ?_) 4
  · match n with
    | 0 | 1 | 3 =>
      cases here
      trivial
    | 2 =>
      cases here
      exact ⟨Nat.one_pos, by decide +kernel⟩
  · match n with
    | 0 | 3 =>
      cases here
      exact fun _ _ => by decide +kernel
    | 1 =>
      cases here
      intro _ passes
      exact absurd passes (by decide +kernel)
    | 2 =>
      cases here
      trivial

/-- A message that reads fewer delayed messages than its predecessor is appended. -/
theorem decreasing_append_accepted : ¬ ∀ ops : List StreamerOp,
    (∀ n (op : StreamerOp), ops[n]? = some op → op.InTrait (StreamerOp.run .empty (ops.take n))) →
      ∀ n, ReadsAdvance (StreamerOp.run .empty (ops.take n)) := by
  intro always
  have run := always [.add 0 [readingMessage 1, readingMessage 0] none] (fun n op here => by
    match n with
    | 0 =>
      cases here
      trivial) 1
  have step := run.next 0 1 0 (by decide +kernel) (by decide +kernel) (by decide +kernel)
  exact absurd step (by decide)

end Samples
end NitroRs
