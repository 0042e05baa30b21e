import NitroRs.Lib.Runs
import NitroRs.Streamer.MessageLog

/-! What the loop of the streamer reaches: a message that stays in the log is executed once and for
all, if the engine accepts blocks again and again. -/
namespace NitroRs
open KeyValue Outcome RethExecEngine Runs Simulation TransactionStreamer

/-- No call of the engine fails during a digest. -/
def EngineAnswers.Accepting (answers : EngineAnswers) : Prop := callEngine answers 0 = .ok ()

theorem EngineAnswers.Accepting.callEngine {answers : EngineAnswers} (accepting : answers.Accepting) (msgIdx : Nat) :
    callEngine answers msgIdx = .ok () := by
  by_cases first : msgIdx = 0
  · subst first
    exact accepting
  · obtain ⟨⟨⟩, _, rest⟩ := except_bind_eq_ok.mp accepting
    unfold RethExecEngine.callEngine
    rw [if_neg first]
    exact rest

/-- The adapter has both of its handles. -/
def RethExecEngine.Connected (engine : RethExecEngine) : Prop :=
  engine.beaconEngineHandle.isSome ∧ engine.payloadBuilderHandle.isSome

/-- A call does not cut the log at a message or before it. -/
def LogCall.Spares (m : Nat) (c : LogCall) : Prop := ∀ first ∈ c.reorgsAt, m < first

namespace LogNode

/-- What a call can do to the node. -/
inductive Changes (c : LogCall) (n : LogNode) : LogNode → Prop
  | nothing : Changes c n n
  | appended (ms : List MessageWithMetadataAndBlockInfo) : Changes c n { n with log := n.log.append ms }
  | reorged {first : Nat} (ms : List MessageWithMetadataAndBlockInfo) (cut : first ∈ c.reorgsAt) :
      Changes c n { n with log := (n.log.truncate first).append ms }
  | clocked (ts : UInt64) : Changes c n { n with exec := { n.exec with lastTimestamp := ts } }
  | recorded (r : MessageResult) (ts : UInt64) (more : n.log.results.length < n.log.entries.length) :
      Changes c n ⟨n.log.record r, { n.exec with lastTimestamp := ts }⟩

theorem append_changes (c : LogCall) (first : Nat) (ms : List MessageWithMetadataAndBlockInfo) (track : Option Nat)
    (n : LogNode) : Changes c n (n.append first ms track).2 := by
  unfold append
  split
  · exact .nothing
  · split
    · exact .nothing
    · exact .appended _

theorem reorg_changes {c : LogCall} {first : Nat} (cut : first ∈ c.reorgsAt)
    (ms : List MessageWithMetadataAndBlockInfo) (track : Option Nat) (n : LogNode) :
    Changes c n (n.reorg first ms track).2 := by
  unfold reorg
  split
  · exact .nothing
  · exact .reorged _ cut

/-- Connected, the adapter takes the message on top of the block before it. -/
theorem beginDigest_connected {n : LogNode} (connected : n.exec.Connected) (msg : MessageWithMetadata) :
    ∃ d exec, n.beginDigest msg = .ok d exec := by
  obtain ⟨beacon, builder⟩ := connected
  rw [Option.isSome_iff_ne_none] at beacon builder
  rw [beginDigest, if_neg (by rwa [Option.isNone_iff_eq_none]), if_neg (by rwa [Option.isNone_iff_eq_none])]
  exact ⟨_, _, rfl⟩

theorem beginDigest_eq_error {n : LogNode} {msg : MessageWithMetadata} {e : EngineError} {exec : RethExecEngine}
    (failed : n.beginDigest msg = .error e exec) : exec = n.exec := by
  unfold beginDigest at failed
  split at failed
  · cases failed
    rfl
  · split at failed <;> cases failed
    rfl

theorem beginDigest_eq_ok {n : LogNode} {msg : MessageWithMetadata} {d : Digest} {exec : RethExecEngine}
    (begun : n.beginDigest msg = .ok d exec) : d.msgIdx = n.log.results.length ∧ d.msg = msg ∧ d.parentHash = n.parent ∧
      exec = { n.exec with lastTimestamp := d.timestamp } := by
  unfold beginDigest at begun
  split at begun
  · cases begun
  · split at begun
    · cases begun
    · cases begun
      exact ⟨rfl, rfl, rfl, rfl⟩

section
variable [PayloadBuilder]

/-- How an execution ends: without a message, without the engine, with a failure of it, or with a result. -/
inductive Execution (answers : EngineAnswers) (n : LogNode) : Except EngineError LogAnswer × LogNode → Prop
  | idle (none : n.log.next = none) : Execution answers n (.ok (.executed false), n)
  | refused {m : MessageWithMetadataAndBlockInfo} {e : EngineError} (next : n.log.next = some m)
      (begun : n.beginDigest m.messageWithMeta = .error e n.exec) : Execution answers n (.error e, n)
  | failed {m : MessageWithMetadataAndBlockInfo} {d : Digest} {exec : RethExecEngine} {e : EngineError} (ts : UInt64)
      (next : n.log.next = some m) (begun : n.beginDigest m.messageWithMeta = .ok d exec)
      (called : callEngine answers d.msgIdx = .error e) :
      Execution answers n (.error e, { n with exec := { n.exec with lastTimestamp := ts } })
  | recorded {m : MessageWithMetadataAndBlockInfo} {d : Digest} {exec : RethExecEngine} (ts : UInt64)
      (next : n.log.next = some m) (begun : n.beginDigest m.messageWithMeta = .ok d exec)
      (called : callEngine answers d.msgIdx = .ok ()) :
      Execution answers n (.ok (.executed (1 < n.log.pending)),
        ⟨n.log.record (resultOf (PayloadBuilder.build d.parentHash d.timestamp d.msg)), { n.exec with lastTimestamp := ts }⟩)

theorem execute_execution (answers : EngineAnswers) (n : LogNode) : Execution answers n (n.execute answers) := by
  unfold execute
  cases next : n.log.next with
  | none => exact .idle next
  | some m =>
    dsimp only
    unfold digest
    cases begun : n.beginDigest m.messageWithMeta with
    | error e exec =>
      have same := beginDigest_eq_error begun
      subst same
      exact .refused next begun
    | ok d exec =>
      obtain ⟨_, _, _, moved⟩ := beginDigest_eq_ok begun
      subst moved
      dsimp only [finishDigest]
      cases called : callEngine answers d.msgIdx with
      | error e => exact .failed _ next begun called
      | ok done => exact .recorded _ next begun called

theorem Execution.changes {c : LogCall} {answers : EngineAnswers} {n : LogNode}
    {r : Except EngineError LogAnswer × LogNode} (execution : Execution answers n r) : Changes c n r.2 := by
  cases execution with
  | idle none => exact .nothing
  | refused next begun => exact .nothing
  | failed ts next begun called => exact .clocked ts
  | recorded ts next begun called => exact .recorded _ ts (ExecutedLog.lt_of_next next)

theorem call_changes (c : LogCall) (n : LogNode) : Changes c n (n.call c).2 := by
  cases c with
  | addMessagesAndEndBatch first messages track => exact n.append_changes _ first messages track
  | addConfirmedMessagesAndEndBatch first messages track => exact n.append_changes _ first messages track
  | addMessagesAndReorg first messages track => exact n.reorg_changes rfl messages track
  | reorgAtAndEndBatch first => exact n.reorg_changes rfl [] none
  | executeNextMsg answers => exact (n.execute_execution answers).changes
  | getMessageCount => exact .nothing
  | getHeadMessageIndex => exact .nothing
  | headMessageIndex => exact .nothing
  | getMessageWithMetadataAndBlockInfo index =>
    rw [call]
    split <;> exact .nothing
  | resultAtMessageIndex index => exact .nothing

/-- The engine executes the next message, unless there is none. -/
theorem execute_accepted {answers : EngineAnswers} (accepting : answers.Accepting) {n : LogNode}
    (connected : n.exec.Connected) (more : n.log.results.length < n.log.entries.length) :
    (n.execute answers).2.log.results.length = n.log.results.length + 1 := by
  have execution := n.execute_execution answers
  generalize n.execute answers = r at execution ⊢
  cases execution with
  | idle none =>
    rw [ExecutedLog.next, List.getElem?_eq_none_iff] at none
    exact absurd more (Nat.not_lt.mpr none)
  | @refused m e next begun =>
    obtain ⟨d, exec, taken⟩ := beginDigest_connected connected m.messageWithMeta
    rw [taken] at begun
    cases begun
  | failed ts next begun called =>
    rw [accepting.callEngine] at called
    cases called
  | recorded ts next begun called =>
    dsimp only
    rw [ExecutedLog.results_record more, List.length_append, List.length_singleton]

end

theorem Changes.connected {c : LogCall} {n n' : LogNode} (changes : Changes c n n') (connected : n.exec.Connected) :
    n'.exec.Connected := by
  cases changes <;> exact connected

/-- What a message that stays in the log keeps, from one state to the next. -/
structure Later (m : Nat) (n n' : LogNode) : Prop where
  entry : m < n.log.entries.length → m < n'.log.entries.length
  results : ∀ i ≤ m, ∀ r, n.log.results[i]? = some r → n'.log.results[i]? = some r

theorem Changes.later {c : LogCall} {n n' : LogNode} {m : Nat} (changes : Changes c n n') (spares : c.Spares m) :
    Later m n n' := by
  cases changes with
  | nothing => exact ⟨id, fun _ _ _ => id⟩
  | appended ms =>
    refine ⟨fun here => ?_, fun _ _ _ => id⟩
    rw [ExecutedLog.entries_append, List.length_append]
    exact Nat.lt_add_right _ here
  | reorged ms cut =>
    have behind := spares _ cut
    refine ⟨fun here => ?_, fun i low r found => ?_⟩
    · rw [ExecutedLog.entries_append, ExecutedLog.entries_truncate, List.length_append, List.length_take]
      omega
    · rw [ExecutedLog.results_append, ExecutedLog.results_truncate, List.getElem?_take_of_lt (by omega)]
      exact found
  | clocked ts => exact ⟨id, fun _ _ _ => id⟩
  | recorded r ts more =>
    refine ⟨fun here => ?_, fun i _ s found => ?_⟩
    · rwa [ExecutedLog.entries_record]
    · rw [ExecutedLog.results_record more]
      have inside := (List.getElem?_eq_some_iff.mp found).1
      rw [List.getElem?_append_left inside]
      exact found

/-- How many of the first messages have no result yet. -/
def missing (m : Nat) (n : LogNode) : Nat := m + 1 - n.log.results.length

theorem Later.missing_le {m : Nat} {n n' : LogNode} (later : Later m n n') : missing m n' ≤ missing m n := by
  unfold missing
  by_cases some : n.log.results.length = 0
  · omega
  · have last := List.getElem?_eq_getElem (show min m (n.log.results.length - 1) < n.log.results.length by omega)
    have kept := (List.getElem?_eq_some_iff.mp (later.results _ (Nat.min_le_left _ _) _ last)).1
    omega

end LogNode

section
variable [PayloadBuilder]

/-- The states of the node in an endless run of calls. -/
abbrev ExecNode.states (calls : Nat → LogCall) (start : ExecNode) : Nat → ExecNode :=
  Runs.states (fun c n => (n.call c).2) calls start

abbrev LogNode.states (calls : Nat → LogCall) (start : LogNode) : Nat → LogNode :=
  Runs.states (fun c n => (n.call c).2) calls start

theorem StoresLog.states {n : ExecNode} {l : LogNode} (stores : StoresLog n l) {calls : Nat → LogCall}
    (allowed : ∀ i, (ExecNode.states calls n i).Allowed (calls i)) (i : Nat) :
    StoresLog (ExecNode.states calls n i) (LogNode.states calls l i) := by
  induction i with
  | zero => exact stores
  | succ i ih => exact (ih.call (allowed i)).1

namespace LogNode

theorem later_of_spares {calls : Nat → LogCall} {start : LogNode} {m i : Nat} (spared : ∀ j ≥ i, (calls j).Spares m) :
    ∀ j ≥ i, Later m (states calls start j) (states calls start (j + 1)) :=
  fun j after => ((states calls start j).call_changes (calls j)).later (spared j after)

/-- A message that stays in the log gets a result, and keeps it. -/
theorem eventually_result {calls : Nat → LogCall} {start : LogNode} (connected : start.exec.Connected)
    (fair : ∀ i, ∃ j ≥ i, ∃ answers, calls j = .executeNextMsg answers ∧ answers.Accepting) {m i : Nat}
    (present : m < (states calls start i).log.entries.length) (spared : ∀ j ≥ i, (calls j).Spares m) :
    ∃ j ≥ i, ∃ r, ∀ k ≥ j, (states calls start k).log.results[m]? = some r := by
  have handles (j : Nat) : (states calls start j).exec.Connected := by
    induction j with
    | zero => exact connected
    | succ j ih => exact ((states calls start j).call_changes (calls j)).connected ih
  have here : ∀ j ≥ i, m < (states calls start j).log.entries.length :=
    states_keep (p := fun (n : LogNode) => m < n.log.entries.length) present fun j after inside =>
      (later_of_spares spared j after).entry inside
  obtain ⟨j, after, reached⟩ := eventually_of_rank (states calls start) (fun n => m < n.log.results.length) (missing m)
    (fun j after => (later_of_spares spared j after).missing_le) fun j after => by
      obtain ⟨k, later, answers, execute, accepting⟩ := fair j
      refine ⟨k, later, ?_⟩
      by_cases executed : m < (states calls start k).log.results.length
      · exact .inl executed
      · have more : (states calls start k).log.results.length < (states calls start k).log.entries.length := by
          have inside := here k (after.trans later)
          omega
        have one := execute_accepted accepting (handles k) more
        right
        change missing m ((states calls start k).call (calls k)).2 < _
        rw [execute, call, missing, missing, one]
        omega
  have found := List.getElem?_eq_getElem reached
  refine ⟨j, after, _, states_keep (p := fun (n : LogNode) => n.log.results[m]? = some _) found fun k later => ?_⟩
  exact (later_of_spares spared k (after.trans later)).results m (Nat.le_refl m) _

end LogNode

/-- A message that stays in the database is executed: from some state on, its result is there and
does not change any more. -/
theorem eventually_executed {start : ExecNode} (empty : EmptyStore start.db)
    (zero : start.db.count .messageCount = some 0) (connected : start.exec.Connected) (calls : Nat → LogCall)
    (allowed : ∀ i, (ExecNode.states calls start i).Allowed (calls i))
    (fair : ∀ i, ∃ j ≥ i, ∃ answers, calls j = .executeNextMsg answers ∧ answers.Accepting) {m i : Nat}
    (present : m < messageCountOrZero (ExecNode.states calls start i).db) (spared : ∀ j ≥ i, (calls j).Spares m) :
    ∃ j ≥ i, ∃ r, ∀ k ≥ j, (ExecNode.states calls start k).db.get .messageResult m = some r := by
  have stores := (stores_new empty zero).states allowed
  rw [(stores i).messageCount] at present
  obtain ⟨j, after, r, kept⟩ := LogNode.eventually_result connected fair present spared
  exact ⟨j, after, r, fun k later => ((stores k).result m).trans (kept k later)⟩

end

section Samples
attribute [local instance] sampleBuilder

/-- One message, and an engine that accepts every block. -/
def sampleLoop : Nat → LogCall
  | 0 => .addMessagesAndEndBatch 0 [sampleMessage 3] none
  | _ + 1 => .executeNextMsg .allValid

theorem sampleLoop_count (i : Nat) : (ExecNode.states sampleLoop sampleNode (i + 1)).db.count .messageCount = some 1 := by
  induction i with
  | zero => rfl
  | succ i ih =>
    have step (n : ExecNode) : (n.call (.executeNextMsg .allValid)).2 = final (executeNextMsg .allValid n) := by
      rw [ExecNode.call]
      cases executeNextMsg .allValid n <;> rfl
    change ((ExecNode.states sampleLoop sampleNode (i + 1)).call (.executeNextMsg .allValid)).2.db.count _ = _
    rw [step]
    rcases executeNextMsg_cases .allValid (ExecNode.states sampleLoop sampleNode (i + 1)) with
      ⟨_, _, _, _, _, _, _, _, _, _, same⟩ | ⟨_, _, _, _, _, _, _, _, _, _, same⟩ | same <;>
      rw [same] <;> exact ih

theorem sampleLoop_executed : ∃ j ≥ 1, ∃ r, ∀ k ≥ j,
    (ExecNode.states sampleLoop sampleNode k).db.get .messageResult 0 = some r := by
  refine eventually_executed sampleNode_empty rfl ⟨rfl, rfl⟩ sampleLoop (fun i => ?_) (fun i => ?_) ?_ fun i _ => ?_
  · cases i with
    | zero => decide +kernel
    | succ i =>
      refine ⟨?_, fun first cut => by cases cut⟩
      rw [messageCountOrZero, sampleLoop_count]
      decide
  · exact ⟨i + 1, Nat.le_succ i, .allValid, rfl, rfl⟩
  · rw [messageCountOrZero, sampleLoop_count]
    decide
  · intro first cut
    cases i <;> cases cut

end Samples
end NitroRs
