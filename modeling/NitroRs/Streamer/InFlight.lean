import NitroRs.Streamer.Chain

/-! Execution in two steps: the streamer picks a message, and the result is stored
when the awaited digest ends. Appends and reorgs may come in between. -/
namespace NitroRs
open KeyValue Outcome RethExecEngine TransactionStreamer

/-- A node with the digest that its streamer awaits. -/
structure AwaitingNode where
  node : ExecNode
  inFlight : Option Digest

inductive AwaitingOp where
  | streamer (op : StreamerOp)
  | pick
  | finish (answers : EngineAnswers)

/-- The first half of `execute_next_msg`. -/
def ExecNode.pick (n : ExecNode) : AwaitingNode :=
  match pickNextMsg n.db with
  | .ok (some (msgIdx, msg, _)) =>
    match beginDigest n.db msgIdx msg n.exec with
    | .ok d exec => ⟨{ n with exec }, some d⟩
    | .error _ exec => ⟨{ n with exec }, none⟩
  | _ => ⟨n, none⟩

section
variable [PayloadBuilder]

/-- The second half of `execute_next_msg`, on the database as it is by then. -/
def ExecNode.finish (n : ExecNode) (answers : EngineAnswers) (d : Digest) : ExecNode :=
  match finishDigest answers d n.exec with
  | .ok res exec => ⟨n.db.write (storeResult d.msgIdx res), exec⟩
  | .error _ exec => { n with exec }

/-- The halves next to each other are an execution step. -/
theorem pick_finish (n : ExecNode) (answers : EngineAnswers)
    (counted : (n.db.count .messageCount).isSome) :
    (n.pick.inFlight.elim n.pick.node fun d => n.pick.node.finish answers d) =
      final (executeNextMsg answers n) := by
  obtain ⟨count, counted⟩ := Option.isSome_iff_exists.mp counted
  obtain ⟨head, read⟩ : ∃ head, getHeadMessageIndex n.db = .ok head := by
    simp only [getHeadMessageIndex, getMessageCount, Db.readCount, counted]
    exact ⟨_, rfl⟩
  unfold executeNextMsg ExecNode.pick
  rw [bind_read, read]
  cases picked : pickNextMsg n.db with
  | error e => rfl
  | ok next =>
    cases next with
    | none => rfl
    | some next =>
      obtain ⟨msgIdx, msg, prefetch⟩ := next
      change _ = final ((onEngine (digestMessage answers n.db msgIdx msg prefetch) >>= _) n)
      dsimp only
      cases began : beginDigest n.db msgIdx msg n.exec with
      | error e exec =>
        have digested : onEngine (digestMessage answers n.db msgIdx msg prefetch) n =
            .error e { n with exec } := zoom_error (bind_error began)
        rw [bind_error digested]
        rfl
      | ok d exec =>
        dsimp only [Option.elim_some, ExecNode.finish]
        have index : d.msgIdx = msgIdx := by
          rcases beginDigest_cases n.db msgIdx msg n.exec with ⟨_, _, done⟩ | ⟨_, failed⟩
          · cases done.symm.trans began
            rfl
          · rw [failed] at began
            contradiction
        cases finished : finishDigest answers d exec with
        | error e exec' =>
          have digested : onEngine (digestMessage answers n.db msgIdx msg prefetch) n =
              .error e { n with exec := exec' } := zoom_error ((bind_ok began).trans finished)
          rw [bind_error digested]
          rfl
        | ok r exec' =>
          have digested : onEngine (digestMessage answers n.db msgIdx msg prefetch) n =
              .ok r { n with exec := exec' } := zoom_ok ((bind_ok began).trans finished)
          rw [bind_ok digested, index]
          rfl

namespace AwaitingOp

/-- One digest is awaited at a time. -/
def step (n : AwaitingNode) : AwaitingOp → AwaitingNode
  | streamer op => { n with node := { n.node with db := op.execute n.node.db } }
  | pick => if n.inFlight.isSome then n else n.node.pick
  | finish answers =>
    match n.inFlight with
    | none => n
    | some d => ⟨n.node.finish answers d, none⟩

def run (n : AwaitingNode) (ops : List AwaitingOp) : AwaitingNode := ops.foldl step n

/-- Reorgs start between 1 and the message count; the count stays a `u64`. -/
def Allowed (op : AwaitingOp) (n : AwaitingNode) : Prop :=
  messageCountOrZero n.node.db < 2 ^ 64 ∧
    match op with
    | streamer op => op.InLog n.node.db
    | pick | finish _ => True

/-- A digest whose result is stored finds what it was started with: its message at its
index, and the block that it was built on in front of it. -/
def Undisturbed (op : AwaitingOp) (n : AwaitingNode) : Prop :=
  match op with
  | finish answers => ∀ d, n.inFlight = some d → callEngine answers d.msgIdx = .ok () →
      n.node.db.get .message d.msgIdx = some d.msg ∧
      parentHash n.node.exec.genesisHash n.node.db d.msgIdx = .ok d.parentHash
  | streamer _ | pick => True

end AwaitingOp

/-- Every result is that of the message which is stored at its index, on the block of the
message in front. -/
def Attributed (genesis : B256) (db : Db) : Prop :=
  ∀ i m r, i < messageCountOrZero db → db.get .message i = some m →
    db.get .messageResult i = some r →
    ∃ parent, parentHash genesis db i = .ok parent ∧ Digested parent m r

theorem Executed.attributed {genesis : B256} {db : Db} {k : Nat} (executed : Executed genesis db k) :
    Attributed genesis db := by
  intro i m r _ message result
  have inside : i < k := (executed.results i).mp (by rw [Store.has, result, Option.isSome_some])
  obtain ⟨m', r', parent, message', result', read, digested⟩ := executed.linked i inside
  cases message.symm.trans message'
  cases result.symm.trans result'
  exact ⟨parent, read, digested⟩

/-- The store holds a chain, and no message from the awaited one on has a result. -/
structure Awaits {genesis : B256} (n : AwaitingNode) (c : Chain genesis) : Prop where
  own : n.node.exec.genesisHash = genesis
  stores : Stores n.node.db c
  ahead : ∀ d, n.inFlight = some d → c.results.length ≤ d.msgIdx

namespace Awaits
variable {genesis : B256} {n : AwaitingNode} {c : Chain genesis}

theorem streamer (awaits : Awaits n c) (op : StreamerOp) (allowed : op.InLog n.node.db) :
    ∃ c' : Chain genesis, Awaits (AwaitingOp.step n (.streamer op)) c' := by
  obtain ⟨c', stores', shorter⟩ := awaits.stores.streamer op allowed
  exact ⟨c', awaits.own, stores', fun d awaited => shorter.trans (awaits.ahead d awaited)⟩

theorem idle {node : ExecNode} (own : node.exec.genesisHash = genesis) (stores : Stores node.db c) :
    Awaits ⟨node, none⟩ c := ⟨own, stores, nofun⟩

/-- The picked message is the first one without a result. -/
theorem pick (awaits : Awaits n c) (word : messageCountOrZero n.node.db < 2 ^ 64) : Awaits n.node.pick c := by
  rw [awaits.stores.messageCount] at word
  unfold ExecNode.pick
  rcases awaits.stores.pickNextMsg word with ⟨m, prefetch, _, picked⟩ | ⟨_, picked⟩
  · rw [picked]
    dsimp only
    rcases beginDigest_cases n.node.db c.results.length m n.node.exec with ⟨parent, _, began⟩ | ⟨e, failed⟩
    · rw [began]
      refine ⟨awaits.own, awaits.stores, fun d awaited => ?_⟩
      cases awaited
      exact le_rfl
    · rw [failed]
      exact idle awaits.own awaits.stores
  · rw [picked]
    exact idle awaits.own awaits.stores

/-- The result of an undisturbed digest is the next one of the chain. -/
theorem finish (awaits : Awaits n c) {answers : EngineAnswers} {d : Digest} (awaited : n.inFlight = some d)
    (undisturbed : (AwaitingOp.finish answers).Undisturbed n) :
    ∃ c' : Chain genesis, Awaits ⟨n.node.finish answers d, none⟩ c' := by
  rcases finishDigest_cases answers d n.node.exec with ⟨called, finished⟩ | ⟨e, _, failed⟩
  · obtain ⟨message, read⟩ := undisturbed d awaited called
    rw [awaits.own] at read
    have next : c.results.length = d.msgIdx := by
      refine le_antisymm (awaits.ahead d awaited) ?_
      cases index : d.msgIdx with
      | zero => exact Nat.zero_le _
      | succ i =>
        -- the result in front of it is still there
        rw [index, RethExecEngine.parentHash, if_neg (Nat.succ_ne_zero i), Nat.add_sub_cancel,
          awaits.stores.result] at read
        cases there : c.results[i]? with
        | none =>
          rw [there] at read
          contradiction
        | some r => exact (List.getElem?_eq_some_iff.mp there).1
    rw [awaits.stores.message, ← next] at message
    rw [← next] at read
    have digested : Digested (parentOf genesis c.results c.results.length) d.msg
        (resultOf (PayloadBuilder.build d.parentHash d.timestamp d.msg)) :=
      awaits.stores.parentHash read ▸ ⟨d.timestamp, rfl⟩
    have stores := awaits.stores.storeResult message digested
    rw [next] at stores
    refine ⟨c.execute d.msg _ message digested, ?_⟩
    rw [ExecNode.finish, finished]
    exact idle awaits.own stores
  · refine ⟨c, ?_⟩
    rw [ExecNode.finish, failed]
    exact idle awaits.own awaits.stores

/-- One step keeps the store a chain if it is not a disturbed digest. -/
theorem step (awaits : Awaits n c) (op : AwaitingOp) (allowed : op.Allowed n) (undisturbed : op.Undisturbed n) :
    ∃ c' : Chain genesis, Awaits (AwaitingOp.step n op) c' := by
  cases op with
  | streamer op => exact awaits.streamer op allowed.2
  | pick =>
    rw [AwaitingOp.step]
    split
    · exact ⟨c, awaits⟩
    · exact ⟨c, awaits.pick allowed.1⟩
  | finish answers =>
    rw [AwaitingOp.step]
    split
    · exact ⟨c, awaits⟩
    · rename_i d awaited
      exact awaits.finish awaited undisturbed

theorem run {start : AwaitingNode} (awaits : Awaits start c) (ops : List AwaitingOp)
    (allowed : ∀ n (op : AwaitingOp), ops[n]? = some op → op.Allowed (AwaitingOp.run start (ops.take n)))
    (undisturbed : ∀ n (op : AwaitingOp), ops[n]? = some op →
      op.Undisturbed (AwaitingOp.run start (ops.take n))) (n : Nat) :
    ∃ c' : Chain genesis, Awaits (AwaitingOp.run start (ops.take n)) c' := by
  induction ops generalizing start c n with
  | nil => exact ⟨c, by simpa [AwaitingOp.run] using awaits⟩
  | cons op ops ih =>
    cases n with
    | zero => exact ⟨c, awaits⟩
    | succ n =>
      obtain ⟨c', awaits'⟩ := awaits.step op (allowed 0 op rfl) (undisturbed 0 op rfl)
      exact ih awaits' (fun n op here => allowed (n + 1) op here)
        (fun n op here => undisturbed (n + 1) op here) n

end Awaits

/-- In a run where every digest that is stored finds its message and its parent still in the
log, every result is that of the message stored at its index. -/
theorem undisturbed_results_attributed {start : AwaitingNode} (empty : EmptyStore start.node.db)
    (zero : start.node.db.count .messageCount = some 0) (idle : start.inFlight = none) (ops : List AwaitingOp)
    (allowed : ∀ n (op : AwaitingOp), ops[n]? = some op → op.Allowed (AwaitingOp.run start (ops.take n)))
    (undisturbed : ∀ n (op : AwaitingOp), ops[n]? = some op →
      op.Undisturbed (AwaitingOp.run start (ops.take n))) (n : Nat) :
    Attributed start.node.exec.genesisHash (AwaitingOp.run start (ops.take n)).node.db := by
  have stores : Stores start.node.db (Chain.empty start.node.exec.genesisHash) :=
    ⟨zero, fun i => empty.empty _ rfl i, fun i => empty.empty _ rfl i⟩
  have initial : Awaits start (Chain.empty start.node.exec.genesisHash) := by
    refine ⟨rfl, stores, fun d awaited => ?_⟩
    cases idle.symm.trans awaited
  obtain ⟨c, awaits⟩ := initial.run ops allowed undisturbed n
  exact awaits.stores.executed.attributed

end

section Samples

attribute [local instance] sampleBuilder

theorem unresolved_fails (msgIdx : Nat) : callEngine .unresolved msgIdx ≠ .ok () := by
  intro called
  cases msgIdx with
  | zero => contradiction
  | succ => contradiction

/-- A reorg takes the place of an awaited message, whose digest then fails; the new message
is executed, while a reorg behind it comes in between. -/
def reorgedAttempts : List AwaitingOp :=
  [.streamer (.add 0 [sampleMessage 3, sampleMessage 4] none), .pick, .finish .allValid, .pick,
    .streamer (.addAndReorg 1 [sampleMessage 5, sampleMessage 6] none), .finish .unresolved, .pick,
    .streamer (.reorgAt 2), .finish .allValid]

theorem reorgedAttempts_allowed : ∀ n (op : AwaitingOp), reorgedAttempts[n]? = some op →
    op.Allowed (AwaitingOp.run ⟨sampleNode, none⟩ (reorgedAttempts.take n)) := by
  intro n op here
  match n with
  | 0 | 1 | 2 | 3 | 5 | 6 | 8 =>
    cases here
    exact ⟨by decide +kernel, trivial⟩
  | 4 | 7 =>
    cases here
    exact ⟨by decide +kernel, by decide, by decide +kernel⟩

theorem undisturbed_of_awaited {n : AwaitingNode} {answers : EngineAnswers} {d : Digest}
    (awaited : n.inFlight = some d) (message : n.node.db.get .message d.msgIdx = some d.msg)
    (parent : parentHash n.node.exec.genesisHash n.node.db d.msgIdx = .ok d.parentHash) :
    (AwaitingOp.finish answers).Undisturbed n := by
  intro d' awaited' _
  cases awaited.symm.trans awaited'
  exact ⟨message, parent⟩

theorem reorgedAttempts_undisturbed : ∀ n (op : AwaitingOp), reorgedAttempts[n]? = some op →
    op.Undisturbed (AwaitingOp.run ⟨sampleNode, none⟩ (reorgedAttempts.take n)) := by
  intro n op here
  match n with
  | 0 | 1 | 3 | 4 | 6 | 7 =>
    cases here
    trivial
  | 2 =>
    cases here
    exact undisturbed_of_awaited (d := ⟨0, (sampleMessage 3).messageWithMeta, .zero, 1⟩) (by decide +kernel)
      (by decide +kernel) rfl
  | 5 =>
    cases here
    exact fun d _ called => absurd called (unresolved_fails d.msgIdx)
  | 8 =>
    cases here
    obtain ⟨d, awaited, message, parent⟩ : ∃ d, (AwaitingOp.run ⟨sampleNode, none⟩
        (reorgedAttempts.take 8)).inFlight = some d ∧ (AwaitingOp.run ⟨sampleNode, none⟩
        (reorgedAttempts.take 8)).node.db.get .message d.msgIdx = some d.msg ∧
        parentHash .zero (AwaitingOp.run ⟨sampleNode, none⟩ (reorgedAttempts.take 8)).node.db d.msgIdx =
          .ok d.parentHash := ⟨_, rfl, by decide +kernel, by decide +kernel⟩
    exact undisturbed_of_awaited awaited message parent

theorem reorged_attempts_attributed : Attributed .zero
    (AwaitingOp.run ⟨sampleNode, none⟩ (reorgedAttempts.take 9)).node.db :=
  undisturbed_results_attributed sampleNode_empty rfl rfl reorgedAttempts reorgedAttempts_allowed
    reorgedAttempts_undisturbed 9

/-- The result of a message that was reorged out is stored for its replacement. -/
theorem stale_result_stored : ¬ ∀ ops : List AwaitingOp,
    (∀ n (op : AwaitingOp), ops[n]? = some op →
      op.Allowed (AwaitingOp.run ⟨sampleNode, none⟩ (ops.take n))) →
      ∀ n, Attributed .zero (AwaitingOp.run ⟨sampleNode, none⟩ (ops.take n)).node.db := by
  intro always
  have run := always [.streamer (.add 0 [sampleMessage 3, sampleMessage 4] none), .pick,
    .finish .allValid, .pick, .streamer (.addAndReorg 1 [sampleMessage 5] none), .finish .allValid]
    (fun n op here => by
      match n with
      | 0 | 1 | 2 | 3 | 5 =>
        cases here
        exact ⟨by decide +kernel, trivial⟩
      | 4 =>
        cases here
        exact ⟨by decide +kernel, by decide, by decide +kernel⟩) 6
  obtain ⟨r, stale, first⟩ : ∃ r, (AwaitingOp.run ⟨sampleNode, none⟩ (List.take 6
      [.streamer (.add 0 [sampleMessage 3, sampleMessage 4] none), .pick, .finish .allValid, .pick,
        .streamer (.addAndReorg 1 [sampleMessage 5] none), .finish .allValid])).node.db.get
          .messageResult 1 = some r ∧ r.blockHash.val.head? = some 4 := ⟨_, rfl, by decide +kernel⟩
  obtain ⟨parent, _, ts, rfl⟩ := run 1 (sampleMessage 5).messageWithMeta r (by decide +kernel)
    (by decide +kernel) stale
  exact absurd first (by simp [resultOf, PayloadBuilder.build, sampleMessage])

end Samples
end NitroRs
