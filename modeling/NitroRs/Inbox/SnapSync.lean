import NitroRs.Inbox.Rereads

/-! Snap sync on a fresh tracker. The shortcut drops the messages before the last one of the
snapshot, and the predecessor of the first that is left is then looked up in the tracker. -/
namespace NitroRs
open KeyValue Outcome

section
variable [Externals] {t : InboxTracker} {ds : List DelayedMessage} {pos : Nat} {acc : B256} {cfg : SnapSyncConfig}

/-- The loop stops at the first message to keep. -/
theorem skipBefore_delayedInputs {firstKeep : Nat} (order : pos ≤ firstKeep) (inside : firstKeep < pos + ds.length)
    (start acc : B256) : ∃ carried before d rest, InboxTracker.skipBefore firstKeep start (delayedInputs pos acc ds) =
      (carried, (firstKeep, before, DelayedMessage.bytes d) :: rest) := by
  induction ds generalizing pos start acc with
  | nil => simp at inside; omega
  | cons d ds ih =>
    rw [delayedInputs, InboxTracker.skipBefore]
    by_cases below : pos < firstKeep
    · rw [if_pos below]
      rw [List.length_cons] at inside
      exact ih below (by omega) _ _
    · rw [if_neg below]
      obtain rfl : pos = firstKeep := by omega
      exact ⟨_, _, _, _, rfl⟩

/-- A snapshot of one message cuts nothing off. -/
theorem snapSyncSkip_one (one : cfg.delayedCount = 1) (ds : List DelayedMessage) :
    (InboxTracker.snapSyncSkip (some cfg) (delayedInputs 0 acc ds)).2 = delayedInputs 0 acc ds := by
  cases ds with
  | nil => rfl
  | cons d ds =>
    rw [delayedInputs, InboxTracker.snapSyncSkip, one]
    split <;> rfl

/-- A longer one leaves a list whose predecessor is not there. -/
theorem snapSync_rejected (holds : HoldsDelayed t.db []) (enabled : cfg.enabled = true)
    (some : 2 ≤ cfg.delayedCount) (longer : cfg.delayedCount < ds.length) (acc : B256) :
    ∃ e, InboxTracker.addDelayedMessages (delayedInputs 0 acc ds) (.some cfg) t = .error e t := by
  obtain ⟨carried, before, d, rest, skipped⟩ := skipBefore_delayedInputs (Nat.zero_le (cfg.delayedCount - 1))
    (by omega : cfg.delayedCount - 1 < 0 + ds.length) .zero acc
  have kept : (InboxTracker.snapSyncSkip (.some cfg) (delayedInputs 0 acc ds)).2 =
      (cfg.delayedCount - 1, before, d.bytes) :: rest := by
    cases ds with
    | nil => simp at longer
    | cons d ds =>
      have cut : cfg.enabled = true ∧ 0 < cfg.delayedCount := ⟨enabled, by omega⟩
      rw [delayedInputs] at skipped ⊢
      rw [InboxTracker.snapSyncSkip, if_pos cut, skipped]
  rw [addDelayedMessages_snapSync, kept]
  rcases addDelayedMessages_cases holds ((cfg.delayedCount - 1, before, d.bytes) :: rest) with
    failed | ⟨empty, _⟩ | ⟨pos, ds', inside, nonempty, given⟩
  · exact failed
  · cases empty
  · obtain ⟨d', ds', rfl⟩ := List.exists_cons_of_ne_nil nonempty
    rw [delayedInputs, List.cons.injEq, Prod.mk.injEq] at given
    rw [List.length_nil] at inside
    omega

theorem restart_holdsDelayed {db : Db} (fresh : Fresh db) : HoldsDelayed (InboxTracker.restart db).db [] := by
  obtain ⟨tables, counters, _⟩ := restart_spec db
  have represents := initializeTracker_represents fresh
  refine ⟨⟨represents.delayedCount, represents.entries, represents.noLegacy⟩, fun i => ?_⟩
  rw [tables, fresh.get _ rfl]
  exact Store.get_empty _ _

/-- Snap sync keeps of a list what a full sync has from the last message of the snapshot on,
exactly when the snapshot is one message long. -/
theorem snap_sync_agrees_iff {db : Db} (fresh : Fresh db) (enabled : cfg.enabled = true)
    (positive : 1 ≤ cfg.delayedCount) (longer : cfg.delayedCount < ds.length) :
    (∃ t t', InboxTracker.addDelayedMessages (delayedInputs 0 .zero ds) (some cfg) (InboxTracker.restart db) = .ok () t ∧
      InboxTracker.addDelayedMessages (delayedInputs 0 .zero ds) none (InboxTracker.restart db) = .ok () t' ∧
      InboxTracker.getDelayedCount t.db = InboxTracker.getDelayedCount t'.db ∧
      ∀ i, cfg.delayedCount - 1 ≤ i → t.db.get .rlpDelayedMessage i = t'.db.get .rlpDelayedMessage i ∧
        InboxTracker.getDelayedAcc t.db i = InboxTracker.getDelayedAcc t'.db i) ↔ cfg.delayedCount = 1 := by
  have holds := restart_holdsDelayed fresh
  constructor
  · rintro ⟨t, t', added, _⟩
    by_contra other
    obtain ⟨e, rejected⟩ := snapSync_rejected holds enabled (by omega) longer .zero
    cases added.symm.trans rejected
  · intro one
    have nonempty : ds ≠ [] := List.ne_nil_of_length_pos (by omega)
    obtain ⟨t, added, _⟩ := addDelayedMessages_holds holds (Nat.zero_le _) nonempty
    have added : InboxTracker.addDelayedMessages (delayedInputs 0 .zero ds) none (InboxTracker.restart db) = .ok () t :=
      added
    refine ⟨t, t, ?_, added, rfl, fun i _ => ⟨rfl, rfl⟩⟩
    rw [addDelayedMessages_snapSync, snapSyncSkip_one one]
    exact added

end

section Samples
open Codecs

/-- Of three messages a snapshot of two leaves the last two, and they are refused. -/
theorem snapshot_of_two_refused : ¬ ∀ (ds : List DelayedMessage) (cfg : SnapSyncConfig) (db : Db), Fresh db →
    cfg.enabled = true → 1 ≤ cfg.delayedCount → cfg.delayedCount < ds.length →
    ∃ t t', InboxTracker.addDelayedMessages (delayedInputs 0 .zero ds) (some cfg) (InboxTracker.restart db) = .ok () t ∧
      InboxTracker.addDelayedMessages (delayedInputs 0 .zero ds) none (InboxTracker.restart db) = .ok () t' ∧
      InboxTracker.getDelayedCount t.db = InboxTracker.getDelayedCount t'.db ∧
      ∀ i, cfg.delayedCount - 1 ≤ i → t.db.get .rlpDelayedMessage i = t'.db.get .rlpDelayedMessage i ∧
        InboxTracker.getDelayedAcc t.db i = InboxTracker.getDelayedAcc t'.db i := by
  intro always
  have empty : Fresh .empty := .refl _ _
  obtain ⟨t, t', added, _⟩ := always [zeroMessage, zeroMessage, zeroMessage] ⟨true, 2⟩ .empty empty rfl
    (by decide) (by decide)
  have longer : (SnapSyncConfig.mk true 2).delayedCount < [zeroMessage, zeroMessage, zeroMessage].length := by decide
  obtain ⟨e, rejected⟩ := snapSync_rejected (restart_holdsDelayed empty) rfl (by decide) longer .zero
  cases added.symm.trans rejected

theorem snapshot_of_one_agrees : ∃ t t',
    InboxTracker.addDelayedMessages (delayedInputs 0 .zero [zeroMessage, zeroMessage]) (some ⟨true, 1⟩)
      (InboxTracker.restart .empty) = .ok () t ∧
    InboxTracker.addDelayedMessages (delayedInputs 0 .zero [zeroMessage, zeroMessage]) none
      (InboxTracker.restart .empty) = .ok () t' ∧
    InboxTracker.getDelayedCount t.db = InboxTracker.getDelayedCount t'.db ∧
    ∀ i, 0 ≤ i → t.db.get .rlpDelayedMessage i = t'.db.get .rlpDelayedMessage i ∧
      InboxTracker.getDelayedAcc t.db i = InboxTracker.getDelayedAcc t'.db i :=
  (snap_sync_agrees_iff (.refl _ _) rfl (by decide) (by decide)).mpr rfl

end Samples
end NitroRs
