import NitroRs.Streamer.Density
import NitroRs.Streamer.Execution
import Mathlib.Order.Basic

/-! The chain that the streamer keeps: a log of messages and the results of those
that were executed, each linked to the one before it. The message store always
holds a chain, and every step moves it from one chain to another. -/
namespace NitroRs
open KeyValue Outcome RethExecEngine TransactionStreamer

section
variable [PayloadBuilder]

/-- The block that message `i` is executed on. -/
def parentOf (genesis : B256) (results : List MessageResult) : Nat → B256
  | 0 => genesis
  | i + 1 => ((results[i]?).map (·.blockHash)).getD genesis

structure Chain (genesis : B256) where
  messages : List MessageWithMetadata
  results : List MessageResult
  executed : results.length ≤ messages.length
  linked : ∀ (i : Nat) (m : MessageWithMetadata) (r : MessageResult), messages[i]? = some m →
    results[i]? = some r → Digested (parentOf genesis results i) m r

namespace Chain
variable {genesis : B256}

def empty (genesis : B256) : Chain genesis := ⟨[], [], le_rfl, fun _ _ _ found => nomatch found⟩

def append (c : Chain genesis) (ms : List MessageWithMetadata) : Chain genesis where
  messages := c.messages ++ ms
  results := c.results
  executed := by
    rw [List.length_append]
    exact c.executed.trans (Nat.le_add_right _ _)
  linked i m r here there := by
    have inside := (List.getElem?_eq_some_iff.mp there).1
    rw [List.getElem?_append_left (inside.trans_le c.executed)] at here
    exact c.linked i m r here there

/-- Drop the messages and results from an index on. -/
def truncate (c : Chain genesis) (first : Nat) : Chain genesis where
  messages := c.messages.take first
  results := c.results.take first
  executed := by
    rw [List.length_take, List.length_take]
    have bound := c.executed
    omega
  linked i m r here there := by
    obtain ⟨inside, _⟩ := List.getElem?_eq_some_iff.mp there
    have low : i < first := (List.length_take_le _ _).trans_lt' inside
    rw [List.getElem?_take_of_lt low] at here there
    have same : parentOf genesis (c.results.take first) i = parentOf genesis c.results i := by
      cases i with
      | zero => rfl
      | succ i => simp only [parentOf, List.getElem?_take_of_lt (Nat.lt_of_succ_lt low)]
    rw [same]
    exact c.linked i m r here there

/-- Execute the first message without a result. -/
def execute (c : Chain genesis) (m : MessageWithMetadata) (r : MessageResult)
    (next : c.messages[c.results.length]? = some m)
    (digested : Digested (parentOf genesis c.results c.results.length) m r) : Chain genesis where
  messages := c.messages
  results := c.results ++ [r]
  executed := by
    rw [List.length_append, List.length_singleton]
    exact (List.getElem?_eq_some_iff.mp next).1
  linked i m' r' here there := by
    have same (inside : i ≤ c.results.length) :
        parentOf genesis (c.results ++ [r]) i = parentOf genesis c.results i := by
      cases i with
      | zero => rfl
      | succ i => simp only [parentOf, List.getElem?_append_left inside]
    obtain ⟨inside, _⟩ := List.getElem?_eq_some_iff.mp there
    rw [List.length_append, List.length_singleton] at inside
    rw [same (by omega)]
    rcases Nat.lt_succ_iff_lt_or_eq.mp inside with old | rfl
    · rw [List.getElem?_append_left old] at there
      exact c.linked i m' r' here there
    · cases next.symm.trans here
      rw [List.getElem?_concat_length] at there
      cases there
      exact digested

@[simp] theorem messages_append (c : Chain genesis) (ms : List MessageWithMetadata) :
    (c.append ms).messages = c.messages ++ ms := rfl

@[simp] theorem results_append (c : Chain genesis) (ms : List MessageWithMetadata) :
    (c.append ms).results = c.results := rfl

@[simp] theorem results_execute (c : Chain genesis) (m : MessageWithMetadata) (r : MessageResult)
    (next : c.messages[c.results.length]? = some m)
    (digested : Digested (parentOf genesis c.results c.results.length) m r) :
    (c.execute m r next digested).results = c.results ++ [r] := rfl

@[simp] theorem messages_truncate (c : Chain genesis) (first : Nat) :
    (c.truncate first).messages = c.messages.take first := rfl

@[simp] theorem results_truncate (c : Chain genesis) (first : Nat) :
    (c.truncate first).results = c.results.take first := rfl

end Chain

/-- The message store holds exactly a chain. -/
structure Stores {genesis : B256} (db : Db) (c : Chain genesis) : Prop where
  count : db.count .messageCount = some c.messages.length
  message : ∀ i, db.get .message i = c.messages[i]?
  result : ∀ i, db.get .messageResult i = c.results[i]?

namespace Stores
variable {genesis : B256} {db : Db} {c : Chain genesis}

theorem messageCount (stores : Stores db c) : messageCountOrZero db = c.messages.length := by
  rw [messageCountOrZero, stores.count, Option.getD_some]

theorem nothingPast (stores : Stores db c) : NothingPastCount db := by
  intro i past
  rw [stores.messageCount] at past
  rw [stores.message, List.getElem?_eq_none past]

/-- An append adds its messages or changes nothing. -/
theorem append (stores : Stores db c) (first : Nat) (confirmed : Bool)
    (ms : List MessageWithMetadataAndBlockInfo) (track : Option Nat) :
    ∃ c' : Chain genesis, Stores (final (addMessagesAndEndBatchImpl first confirmed ms track db)) c' ∧
      c'.results = c.results := by
  rcases append_cases stores.nothingPast first confirmed ms track with
    ⟨_, refused⟩ | ⟨rfl, ⟨e, _, refused⟩ | ⟨_, accepted⟩⟩
  · exact ⟨c, by rwa [refused], rfl⟩
  · exact ⟨c, by rwa [refused], rfl⟩
  · rw [accepted, final_ok]
    split
    · exact ⟨c, stores, rfl⟩
    · refine ⟨c.append (ms.map (·.messageWithMeta)), ⟨?_, fun i => ?_, fun i => ?_⟩, rfl⟩
      · rw [count_write_writeMessages, stores.messageCount, Chain.messages_append, List.length_append,
          List.length_map]
      · rw [get_write_writeMessages_column, stores.messageCount, stores.message, Chain.messages_append]
        by_cases past : c.messages.length ≤ i
        · rw [if_pos past, List.getElem?_eq_none past, Option.or_none, List.getElem?_append_right past,
            List.getElem?_map]
          cases ms[i - c.messages.length]? <;> rfl
        · rw [if_neg past, List.getElem?_append_left (not_le.mp past)]
      · rw [get_write_writeMessages_column]
        have none (m : Option MessageWithMetadataAndBlockInfo) :
            m.bind (column · track i .messageResult) = none := by cases m <;> rfl
        rw [none, Option.none_or, ite_self]
        exact stores.result i

/-- A reorg within the log cuts it and adds its messages. -/
theorem reorg (stores : Stores db c) {first : Nat} (positive : 0 < first)
    (inside : first ≤ messageCountOrZero db) (ms : List MessageWithMetadataAndBlockInfo)
    (track : Option Nat) :
    Stores (final (addMessagesAndReorg first ms track db))
      ((c.truncate first).append (ms.map (·.messageWithMeta))) := by
  obtain ⟨db', done, count, lookups⟩ := addMessagesAndReorg_eq positive ms track db
  rw [stores.messageCount] at inside
  have length : (c.messages.take first).length = first := List.length_take_of_le inside
  rw [done, final_ok]
  refine ⟨?_, fun i => ?_, fun i => ?_⟩
  · rw [count, Chain.messages_append, Chain.messages_truncate, List.length_append, length, List.length_map]
  · rw [lookups _ rfl, Chain.messages_append, Chain.messages_truncate, stores.message]
    by_cases past : first ≤ i
    · rw [if_pos past, List.getElem?_append_right (by omega), length, List.getElem?_map]
      cases ms[i - first]? <;> rfl
    · rw [if_neg past, List.getElem?_append_left (by omega), List.getElem?_take_of_lt (by omega)]
  · rw [lookups _ rfl, Chain.results_append, Chain.results_truncate, stores.result]
    by_cases past : first ≤ i
    · have none (m : Option MessageWithMetadataAndBlockInfo) :
          m.bind (column · track i .messageResult) = none := by cases m <;> rfl
      rw [if_pos past, none, List.getElem?_eq_none ((List.length_take_le _ _).trans past)]
    · rw [if_neg past, List.getElem?_take_of_lt (by omega)]

theorem scanResults_eq (stores : Stores db c) (n : Nat) : scanResults db (c.results.length + n) =
    if c.results.length = 0 then 2 ^ 64 - 1 else c.results.length - 1 := by
  have has (i : Nat) : db.has .messageResult i = decide (i < c.results.length) := by
    rw [Store.has, stores.result, Bool.eq_iff_iff, isSome_getElem?, decide_eq_true_eq]
  induction n with
  | zero =>
    cases length : c.results.length with
    | zero => rfl
    | succ k => simp [scanResults, has, length]
  | succ n ih =>
    have beyond : ¬ c.results.length + n < c.results.length := Nat.not_lt.mpr (Nat.le_add_right _ _)
    rw [← Nat.add_assoc, scanResults, has, decide_eq_false beyond, ih]
    rfl

theorem headMessageIndex (stores : Stores db c) : headMessageIndex db =
    .ok (if c.results.length = 0 then 2 ^ 64 - 1 else c.results.length - 1) := by
  obtain ⟨n, length⟩ := Nat.exists_eq_add_of_le c.executed
  rw [RethExecEngine.headMessageIndex, Db.readCount, stores.count, length]
  exact congrArg Except.ok (stores.scanResults_eq n)

/-- The next message is the first one without a result. -/
theorem pickNextMsg (stores : Stores db c) (word : c.messages.length < 2 ^ 64) :
    (∃ m prefetch, c.messages[c.results.length]? = some m ∧
      pickNextMsg db = .ok (some (c.results.length, m, prefetch))) ∨
    (c.results.length = c.messages.length ∧ pickNextMsg db = .ok none) := by
  have bound := c.executed
  have index : (if (if c.results.length = 0 then 2 ^ 64 - 1 else c.results.length - 1) = 2 ^ 64 - 1
      then 0 else (if c.results.length = 0 then 2 ^ 64 - 1 else c.results.length - 1) + 1) =
        c.results.length := by
    split <;> split at * <;> omega
  simp only [TransactionStreamer.pickNextMsg, stores.headMessageIndex, bind, Except.bind, index,
    stores.messageCount]
  by_cases finished : c.messages.length ≤ c.results.length
  · rw [if_pos finished]
    exact .inr ⟨by omega, rfl⟩
  · left
    have here := List.getElem?_eq_getElem (not_le.mp finished)
    have read : getMessageWithMetadataAndBlockInfo db c.results.length = .ok
        ⟨c.messages[c.results.length], blockHashAtMessageIndex db c.results.length,
          blockMetadataAtMessageIndex db c.results.length⟩ := by
      simp only [getMessageWithMetadataAndBlockInfo, getMessage, stores.message, here]
      rfl
    rw [if_neg finished, read]
    by_cases more : c.results.length + 1 < c.messages.length
    · have next : getMessage db (c.results.length + 1) = .ok c.messages[c.results.length + 1] := by
        simp only [getMessage, stores.message, List.getElem?_eq_getElem more]
      exact ⟨_, _, here, by simp only [if_pos more, next]; rfl⟩
    · exact ⟨_, _, here, by simp only [if_neg more]; rfl⟩

theorem parentHash (stores : Stores db c) {parent : B256}
    (found : parentHash genesis db c.results.length = .ok parent) :
    parent = parentOf genesis c.results c.results.length := by
  unfold RethExecEngine.parentHash at found
  cases length : c.results.length with
  | zero =>
    rw [length, if_pos rfl] at found
    cases found
    rfl
  | succ k =>
    have here := List.getElem?_eq_getElem (show k < c.results.length by omega)
    rw [length, if_neg (Nat.succ_ne_zero k), Nat.add_sub_cancel, stores.result, here] at found
    rw [parentOf, here]
    exact (Except.ok.inj found).symm

theorem storeResult (stores : Stores db c) {m : MessageWithMetadata} {r : MessageResult}
    (next : c.messages[c.results.length]? = some m)
    (digested : Digested (parentOf genesis c.results c.results.length) m r) :
    Stores (db.write (storeResult c.results.length r)) (c.execute m r next digested) := by
  refine ⟨stores.count, fun i => ?_, fun i => ?_⟩
  · rw [TransactionStreamer.storeResult, Store.write_cons, Store.write_nil,
      Store.get_apply_put_of_ne _ _ _ (by decide)]
    exact stores.message i
  · rw [TransactionStreamer.storeResult, Store.write_cons, Store.write_nil, Store.get_apply_put,
      stores.result, Chain.results_execute]
    by_cases here : c.results.length = i
    · subst here
      rw [if_pos rfl, List.getElem?_concat_length]
    · rw [if_neg here]
      by_cases inside : i < c.results.length
      · rw [List.getElem?_append_left inside]
      · rw [List.getElem?_eq_none (by omega), List.getElem?_eq_none (by simp; omega)]

/-- An execution step adds the result of the next message or changes no entry. -/
theorem execute (answers : EngineAnswers) {n : ExecNode} (own : n.exec.genesisHash = genesis)
    {c : Chain genesis} (stores : Stores n.db c) (word : c.messages.length < 2 ^ 64) :
    (final (executeNextMsg answers n)).db = n.db ∨
    ∃ m r next digested, (final (executeNextMsg answers n)).db =
        n.db.write (TransactionStreamer.storeResult c.results.length r) ∧
      Stores (final (executeNextMsg answers n)).db (c.execute m r next digested) := by
  rcases executeNextMsg_cases answers n with
    ⟨msgIdx, msg, prefetch, d, engine, r, engine', picked, began, finished, done⟩ |
    ⟨_, _, _, _, _, _, _, _, _, _, failed⟩ | nothing
  · right
    rcases stores.pickNextMsg word with ⟨m, prefetch', next, found⟩ | ⟨_, none⟩
    swap
    · rw [none] at picked
      exact nomatch picked
    rw [found] at picked
    simp only [Except.ok.injEq, Option.some.injEq, Prod.mk.injEq] at picked
    obtain ⟨rfl, rfl, rfl⟩ := picked
    have digested : Digested (parentOf genesis c.results c.results.length) m r := by
      subst own
      rcases beginDigest_cases n.db c.results.length m n.exec with ⟨parent, read, begun⟩ | ⟨e, failed⟩
      · cases begun.symm.trans began
        rcases finishDigest_cases answers ⟨c.results.length, m, parent, _⟩ _ with
          ⟨_, ended⟩ | ⟨e, _, failed⟩
        · cases ended.symm.trans finished
          rw [← stores.parentHash read]
          exact ⟨_, rfl⟩
        · rw [failed] at finished
          contradiction
      · rw [failed] at began
        contradiction
    refine ⟨m, r, next, digested, by rw [done], ?_⟩
    rw [done]
    exact stores.storeResult next digested
  · exact .inl (by rw [failed])
  · exact .inl (by rw [nothing])

end Stores

/-- A reorg starts behind the first message and not past the last one. -/
def StreamerOp.InLog (op : StreamerOp) (db : Db) : Prop :=
  match op with
  | add .. | addConfirmed .. => True
  | addAndReorg first _ _ | reorgAt first => 0 < first ∧ first ≤ messageCountOrZero db

/-- The steps of a node: an operation on the message store, or an execution step. -/
inductive NodeOp where
  | streamer (op : StreamerOp)
  | execute (answers : EngineAnswers)

namespace NodeOp

def step (n : ExecNode) : NodeOp → ExecNode
  | streamer op => { n with db := op.execute n.db }
  | execute answers => final (executeNextMsg answers n)

def run (n : ExecNode) (ops : List NodeOp) : ExecNode := ops.foldl step n

/-- Reorgs start between 1 and the message count; the count stays a `u64`. -/
def Allowed (op : NodeOp) (n : ExecNode) : Prop :=
  messageCountOrZero n.db < 2 ^ 64 ∧
    match op with
    | streamer op => op.InLog n.db
    | execute _ => True

theorem step_genesis (n : ExecNode) (op : NodeOp) :
    (step n op).exec.genesisHash = n.exec.genesisHash := by
  cases op with
  | streamer op => rfl
  | execute answers =>
    have begun {idx : Nat} {msg : MessageWithMetadata} {d : Digest} {engine : RethExecEngine}
        (began : beginDigest n.db idx msg n.exec = .ok d engine) :
        engine.genesisHash = n.exec.genesisHash := by
      rcases beginDigest_cases n.db idx msg n.exec with ⟨_, _, done⟩ | ⟨e, failed⟩
      · cases done.symm.trans began
        rfl
      · rw [failed] at began
        contradiction
    rcases executeNextMsg_cases answers n with
      ⟨_, _, _, d, engine, r, engine', _, began, finished, done⟩ |
      ⟨_, _, _, d, engine, e, engine', _, began, finished, failed⟩ | nothing
    · rw [step, done, ← begun began]
      rcases finishDigest_cases answers d engine with ⟨_, ended⟩ | ⟨_, _, ended⟩
      · cases ended.symm.trans finished
        rfl
      · rw [ended] at finished
        contradiction
    · rw [step, failed, ← begun began]
      rcases finishDigest_cases answers d engine with ⟨_, ended⟩ | ⟨_, _, ended⟩
      · rw [ended] at finished
        contradiction
      · cases ended.symm.trans finished
        rfl
    · rw [step, nothing]

end NodeOp

theorem Stores.streamer {genesis : B256} {db : Db} {c : Chain genesis} (stores : Stores db c)
    (op : StreamerOp) (allowed : op.InLog db) :
    ∃ c' : Chain genesis, Stores (op.execute db) c' ∧ c'.results.length ≤ c.results.length := by
  have cut (first : Nat) : (c.results.take first).length ≤ c.results.length := List.length_take_le' _ _
  cases op with
  | add first ms track =>
    obtain ⟨c', stores', same⟩ := stores.append first false ms track
    exact ⟨c', stores', same ▸ le_rfl⟩
  | addConfirmed first ms track =>
    obtain ⟨c', stores', same⟩ := stores.append first true ms track
    exact ⟨c', stores', same ▸ le_rfl⟩
  | addAndReorg first ms track => exact ⟨_, stores.reorg allowed.1 allowed.2 ms track, cut first⟩
  | reorgAt first => exact ⟨_, stores.reorg allowed.1 allowed.2 [] none, cut first⟩

namespace NodeOp

/-- One step moves the store from one chain to another. -/
theorem step_stores {genesis : B256} {n : ExecNode} (own : n.exec.genesisHash = genesis)
    {c : Chain genesis} (stores : Stores n.db c) (op : NodeOp) (allowed : op.Allowed n) :
    ∃ c' : Chain genesis, Stores (step n op).db c' := by
  cases op with
  | streamer op =>
    obtain ⟨c', stores', _⟩ := stores.streamer op allowed.2
    exact ⟨c', stores'⟩
  | execute answers =>
    have word := allowed.1
    rw [stores.messageCount] at word
    rcases stores.execute answers own word with same | ⟨m, r, next, digested, _, stores'⟩
    · exact ⟨c, by rwa [step, same]⟩
    · exact ⟨_, stores'⟩

theorem run_stores {genesis : B256} {start : ExecNode} (own : start.exec.genesisHash = genesis)
    {c : Chain genesis} (stores : Stores start.db c) (ops : List NodeOp)
    (allowed : ∀ n (op : NodeOp), ops[n]? = some op → op.Allowed (run start (ops.take n))) (n : Nat) :
    (run start (ops.take n)).exec.genesisHash = genesis ∧
      ∃ c' : Chain genesis, Stores (run start (ops.take n)).db c' := by
  induction ops generalizing start c n with
  | nil => exact ⟨by simpa [run] using own, c, by simpa [run] using stores⟩
  | cons op ops ih =>
    cases n with
    | zero => exact ⟨own, c, stores⟩
    | succ n =>
      obtain ⟨c', stores'⟩ := step_stores own stores op (allowed 0 op rfl)
      exact ih ((step_genesis start op).trans own) stores' (fun n op here => allowed (n + 1) op here) n

end NodeOp

/-- The first `k` messages are executed, each on the block of the one before it. -/
structure Executed (genesis : B256) (db : Db) (k : Nat) : Prop where
  bound : k ≤ messageCountOrZero db
  results : ∀ i, db.has .messageResult i ↔ i < k
  head : headMessageIndex db = .ok (if k = 0 then 2 ^ 64 - 1 else k - 1)
  linked : ∀ i < k, ∃ m r parent, db.get .message i = some m ∧ db.get .messageResult i = some r ∧
    RethExecEngine.parentHash genesis db i = .ok parent ∧ Digested parent m r

theorem Stores.executed {genesis : B256} {db : Db} {c : Chain genesis} (stores : Stores db c) :
    Executed genesis db c.results.length := by
  refine ⟨stores.messageCount ▸ c.executed, fun i => ?_, stores.headMessageIndex, fun i inside => ?_⟩
  · rw [Store.has, stores.result, isSome_getElem?]
  · have message := List.getElem?_eq_getElem (inside.trans_le c.executed)
    have result := List.getElem?_eq_getElem inside
    refine ⟨_, _, parentOf genesis c.results i, (stores.message i).trans message,
      (stores.result i).trans result, ?_, c.linked i _ _ message result⟩
    cases i with
    | zero => rfl
    | succ i =>
      have previous := List.getElem?_eq_getElem (Nat.lt_of_succ_lt inside)
      rw [RethExecEngine.parentHash, if_neg (Nat.succ_ne_zero i), Nat.add_sub_cancel, stores.result,
        parentOf, previous]
      rfl

/-- In every state of a run the executed messages are a prefix of the log, and an
execution step only ever adds the result of the next one. -/
theorem execution_follows_log {genesis : B256} {start : ExecNode}
    (own : start.exec.genesisHash = genesis) (empty : EmptyStore start.db)
    (zero : start.db.count .messageCount = some 0) (ops : List NodeOp)
    (allowed : ∀ n (op : NodeOp), ops[n]? = some op → op.Allowed (NodeOp.run start (ops.take n)))
    (n : Nat) :
    ∃ k, Executed genesis (NodeOp.run start (ops.take n)).db k ∧
      ∀ answers, ops[n]? = some (.execute answers) →
        (NodeOp.run start (ops.take (n + 1))).db = (NodeOp.run start (ops.take n)).db ∨
        ∃ r, (NodeOp.run start (ops.take (n + 1))).db =
          (NodeOp.run start (ops.take n)).db.write (storeResult k r) := by
  have initial : Stores start.db (Chain.empty genesis) :=
    ⟨zero, fun i => empty.empty _ rfl i, fun i => empty.empty _ rfl i⟩
  obtain ⟨own', c, stores⟩ := NodeOp.run_stores own initial ops allowed n
  refine ⟨c.results.length, stores.executed, fun answers here => ?_⟩
  have word := (allowed n _ here).1
  rw [stores.messageCount] at word
  have next : NodeOp.run start (ops.take (n + 1)) =
      final (executeNextMsg answers (NodeOp.run start (ops.take n))) := by
    rw [List.take_add_one, here, NodeOp.run, Option.toList_some, List.foldl_append]
    rfl
  rw [next]
  rcases stores.execute answers own' word with same | ⟨_, r, _, _, written, _⟩
  · exact .inl same
  · exact .inr ⟨r, written⟩

end

section Samples

/-- Blocks whose hash tells the kind of the message, the timestamp and the parent. -/
@[reducible] def sampleBuilder : PayloadBuilder where
  build parent ts msg :=
    ⟨⟨msg.message.header.kind :: u64Be8 ts ++ parent.val.take 23, by
      simp [u64Be8, parent.property]⟩, ts, []⟩

attribute [local instance] sampleBuilder

def sampleMessage (kind : UInt8) : MessageWithMetadataAndBlockInfo :=
  ⟨⟨⟨⟨kind, .zero, 0, 0, none, 0⟩, [], none⟩, 0⟩, none, none⟩

/-- A node that was just initialized, at genesis time 0. -/
def sampleNode : ExecNode :=
  ⟨Store.write .empty [.setCount .messageCount 0], .newWithHandles .zero 0⟩

theorem sampleNode_empty : EmptyStore sampleNode.db := ⟨rfl, fun t _ i => by simp [sampleNode]⟩

/-- An engine that fails before it has resolved the payload. -/
def EngineAnswers.unresolved : EngineAnswers := { allValid with resolvePayload := .error .payloadResolve }

/-- Two executions, a reorg of the second message, and an attempt at the new one that fails. -/
def reorgedOps : List NodeOp :=
  [.streamer (.add 0 [sampleMessage 3, sampleMessage 4] none), .execute .allValid, .execute .allValid,
    .streamer (.addAndReorg 1 [sampleMessage 5] none), .execute .unresolved, .execute .allValid]

theorem reorgedOps_allowed (n : Nat) (op : NodeOp) (here : reorgedOps[n]? = some op) :
    op.Allowed (NodeOp.run sampleNode (reorgedOps.take n)) := by
  have each : ∀ n < 6, messageCountOrZero (NodeOp.run sampleNode (reorgedOps.take n)).db < 2 ^ 64 := by decide +kernel
  have counted : 1 ≤ messageCountOrZero (NodeOp.run sampleNode (reorgedOps.take 3)).db := by decide +kernel
  match n with
  | 0 | 1 | 2 | 4 | 5 =>
    cases here
    exact ⟨each _ (by decide), trivial⟩
  | 3 =>
    cases here
    exact ⟨each 3 (by decide), Nat.one_pos, counted⟩

/-- Behind the failed attempt one message is executed, and behind the next one two. -/
theorem reorged_messages_executed : Executed .zero (NodeOp.run sampleNode (reorgedOps.take 5)).db 1 ∧
    Executed .zero (NodeOp.run sampleNode (reorgedOps.take 6)).db 2 := by
  obtain ⟨k, executed, _⟩ := @execution_follows_log _ .zero sampleNode rfl sampleNode_empty rfl reorgedOps
    reorgedOps_allowed 5
  have one : k = 1 := by
    have first := (executed.results 0).mp (by decide +kernel)
    have second := (executed.results 1).not.mp (by decide +kernel)
    omega
  obtain ⟨l, executed', _⟩ := @execution_follows_log _ .zero sampleNode rfl sampleNode_empty rfl reorgedOps
    reorgedOps_allowed 6
  have two : l = 2 := by
    have second := (executed'.results 1).mp (by decide +kernel)
    have third := (executed'.results 2).not.mp (by decide +kernel)
    omega
  subst one two
  exact ⟨executed, executed'⟩

end Samples
end NitroRs
