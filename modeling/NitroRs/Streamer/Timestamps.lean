import NitroRs.Streamer.InFlight

/-! The timestamps of the blocks: the engine adapter keeps its clock in memory, where
a failed digest moves it and a restart sets it back to genesis. -/
namespace NitroRs
open KeyValue Outcome RethExecEngine TransactionStreamer

/-- Two clocks that give a message the same timestamp: they show the same time, the
message is ahead of both, or the additions saturate. -/
def InStep (ts clock clock' : UInt64) : Prop :=
  clock = clock' ∨ (clock < ts ∧ clock' < ts) ∨ ts.toNat = 2 ^ 64 - 1 ∨
    (2 ^ 64 - 2 ≤ clock.toNat ∧ 2 ^ 64 - 2 ≤ clock'.toNat)

instance (ts clock clock' : UInt64) : Decidable (InStep ts clock clock') :=
  inferInstanceAs (Decidable (_ ∨ _ ∨ _ ∨ _))

theorem toNat_nextTimestamp (ts clock : UInt64) : (nextTimestamp ts clock).toNat =
    if ts.toNat ≤ clock.toNat then min (clock.toNat + 1) (2 ^ 64 - 1) else ts.toNat := by
  unfold nextTimestamp
  by_cases passed : ts ≤ clock
  · rw [if_pos passed, if_pos (UInt64.le_iff_toNat_le.mp passed), toNat_saturatingAdd]
    rfl
  · rw [if_neg passed, if_neg fun low => passed (UInt64.le_iff_toNat_le.mpr low)]

theorem nextTimestamp_eq_iff (ts clock clock' : UInt64) :
    nextTimestamp ts clock = nextTimestamp ts clock' ↔ InStep ts clock clock' := by
  have bound := ts.toNat_lt
  have bound₁ := clock.toNat_lt
  have bound₂ := clock'.toNat_lt
  rw [InStep, ← UInt64.toNat_inj, toNat_nextTimestamp, toNat_nextTimestamp, ← UInt64.toNat_inj,
    UInt64.lt_iff_toNat_lt, UInt64.lt_iff_toNat_lt]
  split <;> split <;> omega

/-- What happens to an engine while it executes a log: attempts, and restarts of the node. -/
inductive ClockEvent where
  | attempt (answers : EngineAnswers)
  | restart

section
variable [PayloadBuilder]

/-- The digest that an attempt executes, unless it has none or fails. -/
def ExecNode.executes (n : ExecNode) (answers : EngineAnswers) : Option Digest :=
  n.pick.inFlight.filter fun d => (callEngine answers d.msgIdx).toBool

namespace ClockEvent

/-- A restart builds the engine again with `new_with_handles`, over the same database. -/
def step (genesisTimestamp : UInt64) (n : ExecNode) : ClockEvent → ExecNode
  | attempt answers => final (executeNextMsg answers n)
  | restart => { n with exec := .newWithHandles n.exec.genesisHash genesisTimestamp }

/-- The digests that a run executes, with their timestamps. -/
def digests (genesisTimestamp : UInt64) : ExecNode → List ClockEvent → List Digest
  | _, [] => []
  | n, restart :: events => digests genesisTimestamp (step genesisTimestamp n restart) events
  | n, attempt answers :: events =>
    (n.executes answers).toList ++ digests genesisTimestamp (step genesisTimestamp n (attempt answers)) events

/-- Every digest of a run starts with a clock that is in step with the timestamp of the
block before it. -/
def Steady (genesisTimestamp : UInt64) : ExecNode → UInt64 → List ClockEvent → Prop
  | _, _, [] => True
  | n, previous, restart :: events =>
    Steady genesisTimestamp (step genesisTimestamp n restart) previous events
  | n, previous, attempt answers :: events =>
    match n.executes answers with
    | none => Steady genesisTimestamp (step genesisTimestamp n (attempt answers)) previous events
    | some d => InStep d.msg.message.header.timestamp n.exec.lastTimestamp previous ∧
        Steady genesisTimestamp (step genesisTimestamp n (attempt answers)) d.timestamp events

instance decidableSteady (genesisTimestamp : UInt64) : ∀ (n : ExecNode) (previous : UInt64)
    (events : List ClockEvent), Decidable (Steady genesisTimestamp n previous events)
  | _, _, [] => isTrue trivial
  | n, previous, restart :: events =>
    decidableSteady genesisTimestamp (step genesisTimestamp n restart) previous events
  | n, previous, attempt answers :: events => by
    unfold Steady
    exact match n.executes answers with
    | none => decidableSteady genesisTimestamp (step genesisTimestamp n (attempt answers)) previous events
    | some d =>
      have := decidableSteady genesisTimestamp (step genesisTimestamp n (attempt answers)) d.timestamp events
      inferInstanceAs (Decidable (_ ∧ _))

end ClockEvent

/-- Runs that give the same message different timestamps do not agree. -/
def TimestampsAgree (ds ds' : List Digest) : Prop :=
  ∀ d ∈ ds, ∀ d' ∈ ds', d.msgIdx = d'.msgIdx → d.timestamp = d'.timestamp

/-- The time of the block after so many messages, by their own timestamps alone. -/
def blockTime (genesisTimestamp : UInt64) (messages : List MessageWithMetadata) : Nat → UInt64
  | 0 => genesisTimestamp
  | i + 1 =>
    match messages[i]? with
    | some m => nextTimestamp m.message.header.timestamp (blockTime genesisTimestamp messages i)
    | none => blockTime genesisTimestamp messages i

/-- A node between two execution steps over a log. -/
structure Executing (genesis : B256) (messages : List MessageWithMetadata) (n : ExecNode) (k : Nat) :
    Prop where
  own : n.exec.genesisHash = genesis
  beacon : n.exec.beaconEngineHandle = some ()
  builder : n.exec.payloadBuilderHandle = some ()
  word : messages.length < 2 ^ 64
  stores : ∃ c : Chain genesis, Stores n.db c ∧ c.messages = messages ∧ c.results.length = k

namespace Executing
variable {genesis : B256} {messages : List MessageWithMetadata} {n : ExecNode} {k : Nat}

/-- The next message is picked with the timestamp that the clock gives it. -/
theorem pick (executing : Executing genesis messages n k) :
    (k = messages.length ∧ n.pick = ⟨n, none⟩) ∨
    ∃ m parent, messages[k]? = some m ∧ RethExecEngine.parentHash genesis n.db k = .ok parent ∧
      n.pick = ⟨⟨n.db, { n.exec with
          lastTimestamp := nextTimestamp m.message.header.timestamp n.exec.lastTimestamp }⟩,
        some ⟨k, m, parent, nextTimestamp m.message.header.timestamp n.exec.lastTimestamp⟩⟩ := by
  obtain ⟨c, stores, rfl, rfl⟩ := executing.stores
  rcases stores.pickNextMsg executing.word with ⟨m, prefetch, next, picked⟩ | ⟨finished, picked⟩
  · right
    obtain ⟨parent, found⟩ : ∃ parent,
        RethExecEngine.parentHash n.exec.genesisHash n.db c.results.length = .ok parent := by
      unfold RethExecEngine.parentHash
      cases length : c.results.length with
      | zero => exact ⟨_, if_pos rfl⟩
      | succ i =>
        have here := List.getElem?_eq_getElem (show i < c.results.length by omega)
        exact ⟨_, by rw [if_neg (Nat.succ_ne_zero i), Nat.add_sub_cancel, stores.result, here]⟩
    refine ⟨m, parent, next, executing.own ▸ found, ?_⟩
    have began := beginDigest_eq_ok m executing.beacon executing.builder found
    simp only [ExecNode.pick, picked, began]
  · left
    simp only [ExecNode.pick, picked]
    exact ⟨finished, trivial⟩

/-- An attempt executes nothing and leaves the log as it is, or executes the next message. -/
theorem attempt (executing : Executing genesis messages n k)
    (honest : ∀ parent ts msg, (PayloadBuilder.build parent ts msg).timestamp = ts)
    (genesisTimestamp : UInt64) (answers : EngineAnswers) :
    (n.executes answers = none ∧
      Executing genesis messages (ClockEvent.step genesisTimestamp n (.attempt answers)) k) ∨
    ∃ m d, messages[k]? = some m ∧ n.executes answers = some d ∧ d.msgIdx = k ∧ d.msg = m ∧
      d.timestamp = nextTimestamp m.message.header.timestamp n.exec.lastTimestamp ∧
      Executing genesis messages (ClockEvent.step genesisTimestamp n (.attempt answers)) (k + 1) ∧
      (ClockEvent.step genesisTimestamp n (.attempt answers)).exec.lastTimestamp = d.timestamp := by
  obtain ⟨c, stores, rfl, rfl⟩ := id executing.stores
  have counted : (n.db.count .messageCount).isSome := by rw [stores.count]; rfl
  rw [ClockEvent.step, ← pick_finish n answers counted, ExecNode.executes]
  rcases executing.pick with ⟨_, idle⟩ | ⟨m, parent, next, found, picked⟩
  · rw [idle]
    exact .inl ⟨rfl, executing⟩
  · rw [picked]
    generalize stamp : nextTimestamp m.message.header.timestamp n.exec.lastTimestamp = ts
    dsimp only [Option.elim_some]
    rcases finishDigest_cases answers ⟨c.results.length, m, parent, ts⟩
        { n.exec with lastTimestamp := ts } with ⟨called, finished⟩ | ⟨e, called, failed⟩
    · refine .inr ⟨m, ⟨c.results.length, m, parent, ts⟩, next, ?_, rfl, rfl, stamp.symm ▸ rfl, ?_, ?_⟩
      · simp only [Option.filter, called]
        rfl
      · simp only [ExecNode.finish, finished]
        have digested : Digested (parentOf genesis c.results c.results.length) m
            (resultOf (PayloadBuilder.build parent ts m)) :=
          ⟨ts, by rw [← stores.parentHash found]⟩
        exact ⟨executing.own, executing.beacon, executing.builder, executing.word,
          _, stores.storeResult next digested, rfl, by simp⟩
      · simp only [ExecNode.finish, finished, honest]
        exact ite_self ts
    · refine .inl ⟨?_, ?_⟩
      · simp only [Option.filter, called]
        rfl
      · simp only [ExecNode.finish, failed]
        exact ⟨executing.own, executing.beacon, executing.builder, executing.word, c, stores, rfl, rfl⟩

theorem restart (executing : Executing genesis messages n k) (genesisTimestamp : UInt64) :
    Executing genesis messages (ClockEvent.step genesisTimestamp n .restart) k :=
  ⟨executing.own, rfl, rfl, executing.word, executing.stores⟩

/-- An attempt that nothing hinders executes the next message if there is one. -/
theorem attempt_allValid (executing : Executing genesis messages n k) (more : k < messages.length) :
    (n.executes .allValid).isSome := by
  rw [ExecNode.executes]
  rcases executing.pick with ⟨finished, _⟩ | ⟨m, parent, _, _, picked⟩
  · omega
  · have called (idx : Nat) : callEngine .allValid idx = .ok () := by
      unfold callEngine
      cases idx <;> rfl
    rw [picked]
    simp only [Option.filter, called]
    rfl

end Executing

section Agreement
variable {genesis : B256} {messages : List MessageWithMetadata} {genesisTimestamp : UInt64}

omit [PayloadBuilder] in
theorem blockTime_succ (genesisTimestamp : UInt64) {k : Nat} {m : MessageWithMetadata}
    (here : messages[k]? = some m) :
    blockTime genesisTimestamp messages (k + 1) =
      nextTimestamp m.message.header.timestamp (blockTime genesisTimestamp messages k) := by
  rw [blockTime, here]

/-- The digests of a run are those of the next messages. -/
theorem digests_bounds (genesisTimestamp : UInt64) {n : ExecNode} {k : Nat}
    (executing : Executing genesis messages n k)
    (honest : ∀ parent ts msg, (PayloadBuilder.build parent ts msg).timestamp = ts)
    (events : List ClockEvent) :
    ∀ d ∈ ClockEvent.digests genesisTimestamp n events, d.msgIdx < messages.length := by
  induction events generalizing n k with
  | nil => exact fun d member => nomatch member
  | cons event events ih =>
    cases event with
    | restart => exact ih (executing.restart genesisTimestamp)
    | attempt answers =>
      rw [ClockEvent.digests]
      rcases executing.attempt honest genesisTimestamp answers with
        ⟨none, executing'⟩ | ⟨m, d, here, some, rfl, _, _, executing', _⟩
      · rw [none]
        exact ih executing'
      · rw [some, Option.toList_some, List.singleton_append]
        rintro d' (_ | ⟨_, later⟩)
        · exact (List.getElem?_eq_some_iff.mp here).1
        · exact ih executing' d' later

/-- A run is steady exactly when its digests have the times of the blocks. -/
theorem steady_iff {n : ExecNode} {k : Nat} (executing : Executing genesis messages n k)
    (honest : ∀ parent ts msg, (PayloadBuilder.build parent ts msg).timestamp = ts)
    (events : List ClockEvent) :
    ClockEvent.Steady genesisTimestamp n (blockTime genesisTimestamp messages k) events ↔
      ∀ d ∈ ClockEvent.digests genesisTimestamp n events,
        d.timestamp = blockTime genesisTimestamp messages (d.msgIdx + 1) := by
  induction events generalizing n k with
  | nil => exact iff_of_true trivial fun d member => nomatch member
  | cons event events ih =>
    cases event with
    | restart => exact ih (executing.restart genesisTimestamp)
    | attempt answers =>
      rw [ClockEvent.digests, ClockEvent.Steady]
      rcases executing.attempt honest genesisTimestamp answers with
        ⟨none, executing'⟩ | ⟨m, d, here, some, rfl, rfl, stamp, executing', _⟩
      · simp only [none]
        exact ih executing'
      · have time := blockTime_succ genesisTimestamp here
        simp only [some, Option.toList_some, List.singleton_append, List.forall_mem_cons]
        rw [← nextTimestamp_eq_iff, ← stamp, ← time]
        constructor
        · rintro ⟨same, steady⟩
          rw [same] at steady
          exact ⟨same, (ih executing').mp steady⟩
        · rintro ⟨same, later⟩
          rw [same]
          exact ⟨rfl, (ih executing').mpr later⟩

/-- The run without failures and restarts executes every message, in time. -/
theorem undisturbed_run {n : ExecNode} {k : Nat} (executing : Executing genesis messages n k)
    (honest : ∀ parent ts msg, (PayloadBuilder.build parent ts msg).timestamp = ts)
    (clock : n.exec.lastTimestamp = blockTime genesisTimestamp messages k) (j : Nat)
    (inside : k + j ≤ messages.length) :
    ClockEvent.Steady genesisTimestamp n (blockTime genesisTimestamp messages k)
        (List.replicate j (.attempt .allValid)) ∧
      ∀ i, k ≤ i → i < k + j → ∃ d ∈ ClockEvent.digests genesisTimestamp n
        (List.replicate j (.attempt .allValid)), d.msgIdx = i := by
  induction j generalizing n k with
  | zero => exact ⟨trivial, fun i low high => absurd low (by omega)⟩
  | succ j ih =>
    have some := executing.attempt_allValid (by omega)
    rcases executing.attempt honest genesisTimestamp .allValid with
      ⟨none, _⟩ | ⟨m, d, here, found, index, rfl, stamp, executing', clock'⟩
    · rw [none] at some
      contradiction
    · have time := blockTime_succ genesisTimestamp here
      rw [clock, ← time] at stamp
      obtain ⟨steady, all⟩ := ih executing' (clock'.trans stamp) (by omega)
      rw [List.replicate_succ, ClockEvent.Steady, ClockEvent.digests, found]
      refine ⟨⟨.inl clock, by rwa [stamp]⟩, fun i low high => ?_⟩
      rcases low.eq_or_lt with rfl | low
      · exact ⟨d, List.mem_append_left _ (by simp), index⟩
      · obtain ⟨d', member, index'⟩ := all i low (by omega)
        exact ⟨d', List.mem_append_right _ member, index'⟩

end Agreement

/-- The start of every run: the log is stored, nothing is executed, and the clock
shows genesis. -/
structure FreshExecution (genesisTimestamp : UInt64) (n : ExecNode) : Prop where
  beacon : n.exec.beaconEngineHandle = some ()
  builder : n.exec.payloadBuilderHandle = some ()
  clock : n.exec.lastTimestamp = genesisTimestamp
  dense : Dense n.db
  counted : (n.db.count .messageCount).isSome
  word : messageCountOrZero n.db < 2 ^ 64
  noResults : ∀ i, n.db.get .messageResult i = none

omit [PayloadBuilder] in
/-- The messages of a dense store as a list. -/
theorem exists_messages (db : Db) (count : Nat) (filled : ∀ i < count, db.has .message i) :
    ∃ messages : List MessageWithMetadata, messages.length = count ∧
      ∀ i < count, db.get .message i = messages[i]? := by
  induction count with
  | zero => exact ⟨[], rfl, fun i low => absurd low (Nat.not_lt_zero i)⟩
  | succ count ih =>
    obtain ⟨messages, rfl, same⟩ := ih fun i low => filled i (by omega)
    obtain ⟨m, last⟩ := Option.isSome_iff_exists.mp (filled messages.length (Nat.lt_succ_self _))
    refine ⟨messages ++ [m], by simp, fun i low => ?_⟩
    rcases Nat.lt_succ_iff_lt_or_eq.mp low with old | rfl
    · rw [List.getElem?_append_left old, same i old]
    · rw [last, List.getElem?_concat_length]

/-- A dense store without results is a chain with nothing executed. -/
theorem FreshExecution.executing {genesisTimestamp : UInt64} {n : ExecNode}
    (fresh : FreshExecution genesisTimestamp n) :
    ∃ messages, Executing n.exec.genesisHash messages n 0 := by
  obtain ⟨count, counted⟩ := Option.isSome_iff_exists.mp fresh.counted
  have same : messageCountOrZero n.db = count := by
    rw [messageCountOrZero, counted, Option.getD_some]
  obtain ⟨messages, rfl, stored⟩ := exists_messages n.db count fun i low =>
    (fresh.dense.message i).mpr (same.symm ▸ low)
  have message (i : Nat) : n.db.get .message i = messages[i]? := by
    rcases Nat.lt_or_ge i messages.length with low | past
    · exact stored i low
    · rw [fresh.dense.nothingPast i (same.symm ▸ past), List.getElem?_eq_none past]
  let c : Chain n.exec.genesisHash := (Chain.empty n.exec.genesisHash).append messages
  exact ⟨messages, rfl, fresh.beacon, fresh.builder, same ▸ fresh.word, c,
    ⟨counted, message, fresh.noResults⟩, rfl, rfl⟩

/-- A run gives every message the timestamp that all steady runs over the same log give
it, exactly when it is steady itself. -/
theorem timestamps_agree_iff {genesisTimestamp : UInt64} {n : ExecNode}
    (fresh : FreshExecution genesisTimestamp n)
    (honest : ∀ parent ts msg, (PayloadBuilder.build parent ts msg).timestamp = ts)
    (events : List ClockEvent) :
    (∀ events', ClockEvent.Steady genesisTimestamp n genesisTimestamp events' →
      TimestampsAgree (ClockEvent.digests genesisTimestamp n events)
        (ClockEvent.digests genesisTimestamp n events')) ↔
      ClockEvent.Steady genesisTimestamp n genesisTimestamp events := by
  obtain ⟨messages, executing⟩ := fresh.executing
  have steady (events : List ClockEvent) :=
    @steady_iff _ n.exec.genesisHash messages genesisTimestamp n 0 executing honest events
  constructor
  · intro agree
    obtain ⟨undisturbed, all⟩ :=
      undisturbed_run executing honest fresh.clock messages.length (by omega)
    refine (steady events).mpr fun d member => ?_
    have bound := digests_bounds genesisTimestamp executing honest events d member
    obtain ⟨d', member', index⟩ := all d.msgIdx (Nat.zero_le _) (by omega)
    rw [agree _ undisturbed d member d' member' index.symm, ← index]
    exact (steady _).mp undisturbed d' member'
  · intro inStep events' inStep' d member d' member' index
    rw [(steady events).mp inStep d member, (steady events').mp inStep' d' member', index]

end

section Samples

attribute [local instance] sampleBuilder

/-- A message with a timestamp of its own. -/
def timedMessage (ts : UInt64) : MessageWithMetadataAndBlockInfo :=
  ⟨⟨⟨⟨3, .zero, 0, ts, none, 0⟩, [], none⟩, 0⟩, none, none⟩

/-- A node with two messages, at times 5 and 9, and genesis time 0. -/
def timedNode : ExecNode :=
  { sampleNode with db := (StreamerOp.add 0 [timedMessage 5, timedMessage 9] none).execute sampleNode.db }

theorem timedNode_fresh : FreshExecution 0 timedNode := by
  have dense : Dense timedNode.db := (StreamerOp.dense_execute sampleNode_empty.dense
    (.add 0 [timedMessage 5, timedMessage 9] none)).mpr trivial
  have initial : Stores sampleNode.db (Chain.empty .zero) :=
    ⟨rfl, fun i => sampleNode_empty.empty _ rfl i, fun i => sampleNode_empty.empty _ rfl i⟩
  obtain ⟨c, stores, none⟩ := initial.append 0 false [timedMessage 5, timedMessage 9] none
  exact ⟨rfl, rfl, rfl, dense, by decide +kernel, by decide +kernel, fun i => by
    rw [timedNode, StreamerOp.execute]
    exact (stores.result i).trans (by rw [none]; rfl)⟩

/-- A restart in front of a message that is later than the clock changes no timestamp. -/
theorem restart_between_later_messages : TimestampsAgree
    (ClockEvent.digests 0 timedNode [.attempt .allValid, .restart, .attempt .allValid])
    (ClockEvent.digests 0 timedNode [.attempt .allValid, .attempt .allValid]) :=
  (timestamps_agree_iff timedNode_fresh (fun _ _ _ => rfl) _).mpr (by decide +kernel) _
    (by decide +kernel)

/-- The payload of a digest that fails after its clock has moved. -/
def failingAnswers : EngineAnswers := { EngineAnswers.allValid with resolvePayload := .error .payloadResolve }

/-- A digest that fails once and is retried executes its message a second later. -/
theorem failed_digest_moves_clock : ¬ ∀ events events' : List ClockEvent, TimestampsAgree
    (ClockEvent.digests 0 timedNode events) (ClockEvent.digests 0 timedNode events') := by
  intro agree
  have retried : ClockEvent.digests 0 timedNode [.attempt failingAnswers, .attempt .allValid] =
      [⟨0, (timedMessage 5).messageWithMeta, .zero, 6⟩] := by decide +kernel
  have direct : ClockEvent.digests 0 timedNode [.attempt .allValid] =
      [⟨0, (timedMessage 5).messageWithMeta, .zero, 5⟩] := by decide +kernel
  have same := agree [.attempt failingAnswers, .attempt .allValid] [.attempt .allValid]
  rw [retried, direct] at same
  exact absurd (same _ List.mem_cons_self _ List.mem_cons_self rfl) (by decide)

end Samples
end NitroRs
