import NitroRs.Lib.Ensures
import NitroRs.Streamer.EventualExecution
import Mathlib.Data.List.Forall2

/-! What the adapter asks of the consensus engine and of the payload builder: the requests of a
digest, and what the forkchoice updates of a whole run say about the chain. -/
namespace NitroRs
open KeyValue Outcome RethExecEngine Simulation TransactionStreamer

structure ForkchoiceState where
  headBlockHash : B256
  safeBlockHash : B256
  finalizedBlockHash : B256
  deriving DecidableEq

/-- A request, with the timestamp of its attributes where it has them. -/
inductive EngineRequest where
  | forkChoiceUpdated (state : ForkchoiceState) (attributes : Option UInt64)
  | sendNewPayload (parentHash : B256) (timestamp : UInt64)
  | resolveKind
  deriving DecidableEq

def EngineRequest.forkchoice : EngineRequest → Option ForkchoiceState
  | .forkChoiceUpdated state _ => some state
  | _ => none

/-- Every block of the update is the same one. -/
def ForkchoiceState.at (hash : B256) : ForkchoiceState := ⟨hash, hash, hash⟩

/-- Every forkchoice update of a digest finalizes the parent block; its head is that block or the new one. -/
structure ForkchoiceState.Extends [PayloadBuilder] (d : Digest) (f : ForkchoiceState) : Prop where
  safe : f.safeBlockHash = d.parentHash
  finalized : f.finalizedBlockHash = d.parentHash
  head : f.headBlockHash = d.parentHash ∨ f.headBlockHash = (PayloadBuilder.build d.parentHash d.timestamp d.msg).hash

namespace RethExecEngine

/-- A request stays sent when it is answered with an error. -/
def request {α : Type} (r : EngineRequest) (answer : Except EngineError α) :
    EStateM EngineError (List EngineRequest) α := do
  update (· ++ [r])
  lift answer

/-- The loop around `send_new_payload`, with its requests. -/
def requestPayload (answer : Nat → SendAnswer) (sent : EngineRequest) :
    Nat → Nat → EStateM EngineError (List EngineRequest) Unit
  | 0, _ => throw .payloadId
  | fuel + 1, attempts => do
    update (· ++ [sent])
    match answer attempts with
    | .sent => return ()
    | .refused missingParent =>
      if missingParent && attempts < 60 then requestPayload answer sent fuel (attempts + 1)
      else throw .payloadId
    | .closed =>
      if attempts < 10 then requestPayload answer sent fuel (attempts + 1) else throw .payloadIdChannelClosed

section
variable [PayloadBuilder]

/-- The requests on top of the parent block. -/
def requestAtParent (answers : EngineAnswers) (d : Digest) : EStateM EngineError (List EngineRequest) Unit := do
  let pre ← request (.forkChoiceUpdated (.at d.parentHash) none) answers.preForkchoice
  if pre.isInvalid then throw (.preForkchoiceInvalid pre)
  let attributes ← request (.forkChoiceUpdated (.at d.parentHash) (some d.timestamp)) answers.attributesForkchoice
  if attributes.isInvalid then throw (.attributesForkchoiceInvalid attributes)
  requestPayload answers.sendNewPayload (.sendNewPayload d.parentHash d.timestamp) 61 0
  request .resolveKind answers.resolvePayload
  let block := PayloadBuilder.build d.parentHash d.timestamp d.msg
  let status ← request (.forkChoiceUpdated ⟨block.hash, d.parentHash, d.parentHash⟩ none) answers.finalForkchoice
  if status ≠ .valid ∧ status ≠ .syncing then throw (.finalForkchoiceNotValid status)

/-- `digest_message` from its first request on, up to the answer to the last one. -/
def requestBlock (answers : EngineAnswers) (genesisHash : B256) (d : Digest) :
    EStateM EngineError (List EngineRequest) Unit := do
  if d.msgIdx = 0 then request (.forkChoiceUpdated (.at genesisHash) none) answers.seedForkchoice
  requestAtParent answers d

end

theorem request_computes {α : Type} (r : EngineRequest) (answer : Except EngineError α) :
    Computes (request r answer) answer := .update_bind (.lift answer)

theorem requestPayload_computes (answer : Nat → SendAnswer) (sent : EngineRequest) (fuel attempts : Nat) :
    Computes (requestPayload answer sent fuel attempts) (sendLoop answer fuel attempts) := by
  induction fuel generalizing attempts with
  | zero => exact .throw _
  | succ fuel ih =>
    unfold requestPayload sendLoop
    refine .update_bind ?_
    cases answer attempts with
    | sent => exact .pure ()
    | refused missingParent => exact .ite (ih _) (.throw _)
    | closed => exact .ite (ih _) (.throw _)

section
variable [PayloadBuilder]

theorem requestAtParent_computes (answers : EngineAnswers) (d : Digest) :
    Computes (requestAtParent answers d) (callEngine answers 1) := by
  refine .bind (request_computes _ _) fun pre => .ite .throw_bind ?_
  refine .bind (request_computes _ _) fun attributes => .ite .throw_bind ?_
  refine .bind (requestPayload_computes _ _ _ _) fun _ => .bind (request_computes _ _) fun _ => ?_
  exact .bind (request_computes _ _) fun status => .ite (.throw _) (.pure ())

/-- The requests are those behind the calls of a digest. -/
theorem requestBlock_computes (answers : EngineAnswers) (genesisHash : B256) (d : Digest) :
    Computes (requestBlock answers genesisHash d) (callEngine answers d.msgIdx) := by
  have rest := requestAtParent_computes answers d
  unfold requestBlock callEngine
  exact .ite (.bind (request_computes _ _) fun _ => rest) rest

omit [PayloadBuilder] in
theorem request_ensures {α : Type} {P : EngineRequest → Prop} {r : EngineRequest} (holds : P r)
    (answer : Except EngineError α) :
    Ensures (fun sent => ∀ r ∈ sent, P r) (fun _ => True) (fun _ => True) (request r answer) := by
  refine .bind (.update fun sent before => ?_) fun _ _ => .lift (fun _ _ => trivial) fun _ _ => trivial
  exact List.forall_mem_append.mpr ⟨before, List.forall_mem_singleton.mpr holds⟩

omit [PayloadBuilder] in
theorem requestPayload_ensures {P : EngineRequest → Prop} {r : EngineRequest} (holds : P r)
    (answer : Nat → SendAnswer) (fuel attempts : Nat) :
    Ensures (fun sent => ∀ r ∈ sent, P r) (fun _ => True) (fun _ => True) (requestPayload answer r fuel attempts) := by
  induction fuel generalizing attempts with
  | zero => exact .throw trivial
  | succ fuel ih =>
    refine .bind (.update fun sent before => ?_) fun _ _ => ?_
    · exact List.forall_mem_append.mpr ⟨before, List.forall_mem_singleton.mpr holds⟩
    · cases answer attempts with
      | sent => exact .pure trivial
      | refused missingParent => exact .ite (fun _ => ih _) (.throw trivial)
      | closed => exact .ite (fun _ => ih _) (.throw trivial)

theorem requestAtParent_ensures (answers : EngineAnswers) (d : Digest) :
    Ensures (fun sent => ∀ r ∈ sent, ∀ f ∈ r.forkchoice, f.Extends d) (fun _ => True) (fun _ => True)
      (requestAtParent answers d) := by
  have update {f : ForkchoiceState} (holds : f.Extends d) (ts : Option UInt64) :
      ∀ g ∈ (EngineRequest.forkChoiceUpdated f ts).forkchoice, g.Extends d := by
    rintro _ ⟨⟩
    exact holds
  have parent : (ForkchoiceState.at d.parentHash).Extends d := ⟨rfl, rfl, .inl rfl⟩
  refine .bind (request_ensures (update parent none) _) fun pre _ => .ite (fun _ => .throw_bind trivial) ?_
  refine .bind (request_ensures (update parent _) _) fun attributes _ => .ite (fun _ => .throw_bind trivial) ?_
  refine .bind (requestPayload_ensures (by rintro _ ⟨⟩) _ _ _) fun _ _ => ?_
  refine .bind (request_ensures (by rintro _ ⟨⟩) _) fun _ _ => ?_
  exact .bind (request_ensures (update ⟨rfl, rfl, .inr rfl⟩ none) _) fun status _ =>
    .ite (fun _ => .throw trivial) (.pure trivial)

/-- All forkchoice updates of a digest extend its parent block. -/
theorem requestBlock_ensures (answers : EngineAnswers) {genesisHash : B256} {d : Digest}
    (first : d.msgIdx = 0 → d.parentHash = genesisHash) :
    Ensures (fun sent => ∀ r ∈ sent, ∀ f ∈ r.forkchoice, f.Extends d) (fun _ => True) (fun _ => True)
      (requestBlock answers genesisHash d) := by
  have rest := requestAtParent_ensures answers d
  refine .ite (fun zero => .bind (request_ensures ?_ _) fun _ _ => rest) rest
  rintro _ ⟨⟩
  exact ⟨(first zero).symm, (first zero).symm, .inl (first zero).symm⟩

/-- The last request of a digest that ends well makes the new block the head. -/
def finalUpdate (d : Digest) : EngineRequest :=
  .forkChoiceUpdated ⟨(PayloadBuilder.build d.parentHash d.timestamp d.msg).hash, d.parentHash, d.parentHash⟩ none

theorem requestAtParent_leaves (answers : EngineAnswers) (d : Digest) :
    Leaves (finalUpdate d ∈ ·) (requestAtParent answers d) := by
  refine .bind fun pre => .ite .throw_bind (.bind fun attributes => .ite .throw_bind ?_)
  refine .bind fun _ => .bind fun _ => ?_
  intro s a t ran
  obtain ⟨status, u, asked, rest⟩ := bind_eq_ok.mp ran
  obtain ⟨⟨⟩, _, ⟨⟩, answered⟩ := bind_eq_ok.mp asked
  obtain ⟨_, rfl⟩ := lift_eq_ok.mp answered
  have sent : finalUpdate d ∈ s ++ [finalUpdate d] := List.mem_append_right _ (List.mem_singleton_self _)
  split at rest <;> cases rest
  exact sent

theorem requestBlock_leaves (answers : EngineAnswers) (genesisHash : B256) (d : Digest) :
    Leaves (finalUpdate d ∈ ·) (requestBlock answers genesisHash d) := by
  have rest := requestAtParent_leaves answers d
  exact .ite (.bind fun _ => rest) rest

end

end RethExecEngine

section
variable [PayloadBuilder]

/-- The requests of a call; only an execution makes any. -/
def ExecNode.requests (c : LogCall) (n : ExecNode) : List EngineRequest :=
  match c with
  | .executeNextMsg answers =>
    match getHeadMessageIndex n.db, pickNextMsg n.db with
    | .ok _, .ok (some (msgIdx, msg, _)) =>
      match beginDigest n.db msgIdx msg n.exec with
      | .ok d _ => final (requestBlock answers n.exec.genesisHash d [])
      | .error _ _ => []
    | _, _ => []
  | _ => []

/-- The node with everything that it asked of the engine so far. -/
structure TracedNode where
  node : ExecNode
  sent : List EngineRequest

def TracedNode.call (c : LogCall) (t : TracedNode) : Except EngineError LogAnswer × TracedNode :=
  ((t.node.call c).1, ⟨(t.node.call c).2, t.sent ++ t.node.requests c⟩)

def LogNode.requests (c : LogCall) (l : LogNode) : List EngineRequest :=
  match c with
  | .executeNextMsg answers =>
    match l.log.next with
    | none => []
    | some m =>
      match l.beginDigest m.messageWithMeta with
      | .ok d _ => final (requestBlock answers l.exec.genesisHash d [])
      | .error _ _ => []
  | _ => []

theorem StoresLog.requests {n : ExecNode} {l : LogNode} (stores : StoresLog n l)
    (word : l.log.entries.length < 2 ^ 64) (c : LogCall) : n.requests c = l.requests c := by
  cases c with
  | executeNextMsg answers =>
    unfold ExecNode.requests LogNode.requests
    rcases stores.pickNextMsg word with ⟨m, prefetch, next, picked⟩ | ⟨none, picked⟩
    · rw [stores.getHeadMessageIndex, picked, next]
      dsimp only
      rw [stores.beginDigest, stores.exec]
    · rw [stores.getHeadMessageIndex, picked, none]
  | addMessagesAndEndBatch | addConfirmedMessagesAndEndBatch | addMessagesAndReorg | reorgAtAndEndBatch | getMessageCount
  | getHeadMessageIndex | headMessageIndex | getMessageWithMetadataAndBlockInfo | resultAtMessageIndex => rfl

end

/-- A block keeps its parent while the results before it stay. -/
theorem parentOf_isPrefix {genesis : B256} {results results' : List MessageResult} (same : results <+: results')
    {i : Nat} (inside : i ≤ results.length) : parentOf genesis results' i = parentOf genesis results i := by
  obtain ⟨later, rfl⟩ := same
  cases i with
  | zero => rfl
  | succ i => rw [parentOf, parentOf, List.getElem?_append_left inside]

/-- A head is finalized itself, or a block on top of the finalized one. -/
def ForkchoiceState.OneAhead [PayloadBuilder] (f : ForkchoiceState) : Prop :=
  f.safeBlockHash = f.finalizedBlockHash ∧ (f.headBlockHash = f.finalizedBlockHash ∨
    ∃ ts msg, f.headBlockHash = (PayloadBuilder.build f.finalizedBlockHash ts msg).hash)

section
variable [PayloadBuilder]

theorem ForkchoiceState.Extends.oneAhead {f : ForkchoiceState} {d : Digest} (holds : f.Extends d) : f.OneAhead := by
  refine ⟨holds.safe.trans holds.finalized.symm, holds.head.imp (·.trans holds.finalized.symm) fun built => ?_⟩
  exact ⟨d.timestamp, d.msg, by rw [built, holds.finalized]⟩

namespace LogNode

/-- The forkchoice updates of a call finalize the newest result, and a new result was the head of one of them. -/
theorem requests_extend (c : LogCall) (l : LogNode) : ∀ r ∈ l.requests c, ∀ f ∈ r.forkchoice,
    ∃ d : Digest, d.parentHash = l.parent ∧ f.Extends d := by
  cases c with
  | executeNextMsg answers =>
    unfold requests
    cases next : l.log.next with
    | none => exact List.forall_mem_nil _
    | some m =>
      dsimp only
      cases begun : l.beginDigest m.messageWithMeta with
      | error e exec => exact List.forall_mem_nil _
      | ok d exec =>
        obtain ⟨index, _, parent, _⟩ := beginDigest_eq_ok begun
        have first (zero : d.msgIdx = 0) : d.parentHash = l.exec.genesisHash := by
          rw [parent, LogNode.parent, ← index, zero]
          rfl
        intro r sent f asked
        exact ⟨d, parent, (requestBlock_ensures answers first).keeps [] (List.forall_mem_nil _) r sent f asked⟩
  | addMessagesAndEndBatch | addConfirmedMessagesAndEndBatch | addMessagesAndReorg | reorgAtAndEndBatch | getMessageCount
  | getHeadMessageIndex | headMessageIndex | getMessageWithMetadataAndBlockInfo | resultAtMessageIndex =>
    exact List.forall_mem_nil _

/-- What a call does to the results: it cuts them, or it adds the one that the engine was told. -/
theorem call_results (c : LogCall) (l : LogNode) : (l.call c).2.exec.genesisHash = l.exec.genesisHash ∧
    ((l.call c).2.log.results <+: l.log.results ∨
      ∃ d : Digest, d.parentHash = l.parent ∧ finalUpdate d ∈ l.requests c ∧ (l.call c).2.log.results =
        l.log.results ++ [resultOf (PayloadBuilder.build d.parentHash d.timestamp d.msg)]) := by
  have appended (first : Nat) (ms : List MessageWithMetadataAndBlockInfo) (track : Option Nat) :
      (l.append first ms track).2.exec = l.exec ∧ (l.append first ms track).2.log.results = l.log.results := by
    unfold append
    split
    · exact ⟨rfl, rfl⟩
    · split <;> exact ⟨rfl, rfl⟩
  have cut (first : Nat) (ms : List MessageWithMetadataAndBlockInfo) (track : Option Nat) :
      (l.reorg first ms track).2.exec = l.exec ∧ (l.reorg first ms track).2.log.results <+: l.log.results := by
    unfold reorg
    split
    · exact ⟨rfl, List.prefix_refl _⟩
    · exact ⟨rfl, List.take_prefix first _⟩
  cases c with
  | addMessagesAndEndBatch first messages track =>
    obtain ⟨exec, results⟩ := appended first messages track
    exact ⟨congrArg _ exec, .inl (results ▸ List.prefix_refl _)⟩
  | addConfirmedMessagesAndEndBatch first messages track =>
    obtain ⟨exec, results⟩ := appended first messages track
    exact ⟨congrArg _ exec, .inl (results ▸ List.prefix_refl _)⟩
  | addMessagesAndReorg first messages track =>
    obtain ⟨exec, results⟩ := cut first messages track
    exact ⟨congrArg _ exec, .inl results⟩
  | reorgAtAndEndBatch first =>
    obtain ⟨exec, results⟩ := cut first [] none
    exact ⟨congrArg _ exec, .inl results⟩
  | executeNextMsg answers =>
    have execution := l.execute_execution answers
    change (l.execute answers).2.exec.genesisHash = _ ∧ ((l.execute answers).2.log.results <+: _ ∨
      ∃ d : Digest, _ ∧ _ ∧ (l.execute answers).2.log.results = _)
    generalize l.execute answers = ended at execution ⊢
    cases execution with
    | idle none => exact ⟨rfl, .inl (List.prefix_refl _)⟩
    | refused next begun => exact ⟨rfl, .inl (List.prefix_refl _)⟩
    | failed ts next begun called => exact ⟨rfl, .inl (List.prefix_refl _)⟩
    | @recorded m d exec ts next begun called =>
      obtain ⟨_, _, parent, _⟩ := beginDigest_eq_ok begun
      refine ⟨rfl, .inr ⟨d, parent, ?_, ExecutedLog.results_record (ExecutedLog.lt_of_next next) _⟩⟩
      unfold requests
      rw [next]
      dsimp only
      rw [begun]
      exact requestBlock_leaves answers _ d [] () _ (eq_ok_of_ending ((requestBlock_computes answers _ d []).trans called))
  | getMessageWithMetadataAndBlockInfo index =>
    rw [call]
    split <;> exact ⟨rfl, .inl (List.prefix_refl _)⟩
  | getMessageCount | getHeadMessageIndex | headMessageIndex | resultAtMessageIndex =>
    exact ⟨rfl, .inl (List.prefix_refl _)⟩

/-- The result at an index was the head of a forkchoice update, on top of the block before it. -/
def Announced (l : LogNode) (sent : List EngineRequest) : Prop := ∀ i r, l.log.results[i]? = some r →
  .forkChoiceUpdated ⟨r.blockHash, parentOf l.exec.genesisHash l.log.results i,
    parentOf l.exec.genesisHash l.log.results i⟩ none ∈ sent

theorem Announced.call {l : LogNode} {sent : List EngineRequest} (announced : l.Announced sent) (c : LogCall) :
    (l.call c).2.Announced (sent ++ l.requests c) := by
  obtain ⟨genesis, shorter | ⟨d, parent, told, longer⟩⟩ := l.call_results c
  · intro i r found
    have inside := (List.getElem?_eq_some_iff.mp found).1
    have old : l.log.results[i]? = some r := by
      obtain ⟨rest, whole⟩ := shorter
      rwa [← whole, List.getElem?_append_left inside]
    have same : parentOf l.exec.genesisHash l.log.results i =
        parentOf l.exec.genesisHash (l.call c).2.log.results i := parentOf_isPrefix shorter (Nat.le_of_lt inside)
    rw [genesis, ← same]
    exact List.mem_append_left _ (announced i r old)
  · intro i r found
    have kept : l.log.results <+: (l.call c).2.log.results := longer ▸ List.prefix_append _ _
    rw [genesis]
    by_cases inside : i < l.log.results.length
    · rw [parentOf_isPrefix kept (Nat.le_of_lt inside)]
      rw [longer, List.getElem?_append_left inside] at found
      exact List.mem_append_left _ (announced i r found)
    · have bound := (List.getElem?_eq_some_iff.mp found).1
      rw [longer, List.length_append, List.length_singleton] at bound
      have last : i = l.log.results.length := by omega
      subst last
      rw [longer, List.getElem?_concat_length] at found
      cases found
      rw [parentOf_isPrefix kept le_rfl, ← LogNode.parent, ← parent]
      exact List.mem_append_right _ told

/-- The finalized blocks of the updates stand at positions of the chain that never go back. -/
def FinalizedInOrder (l : LogNode) (sent : List EngineRequest) : Prop := ∃ positions : List Nat,
  positions.Pairwise (· ≤ ·) ∧ List.Forall₂ (fun k f => k ≤ l.log.results.length ∧
    f.finalizedBlockHash = parentOf l.exec.genesisHash l.log.results k) positions
    (sent.filterMap EngineRequest.forkchoice)

theorem FinalizedInOrder.call {l : LogNode} {sent : List EngineRequest} (ordered : l.FinalizedInOrder sent)
    {c : LogCall} (kept : l.log.results <+: (l.call c).2.log.results) :
    (l.call c).2.FinalizedInOrder (sent ++ l.requests c) := by
  obtain ⟨positions, sorted, blocks⟩ := ordered
  obtain ⟨genesis, _⟩ := l.call_results c
  have bounded : ∀ k ∈ positions, k ≤ l.log.results.length := forall_left blocks fun _ _ => And.left
  refine ⟨positions ++ List.replicate ((l.requests c).filterMap EngineRequest.forkchoice).length l.log.results.length,
    ?_, ?_⟩
  · refine List.pairwise_append.mpr ⟨sorted, List.pairwise_replicate.mpr (.inr le_rfl), fun a old b new => ?_⟩
    rw [List.eq_of_mem_replicate new]
    exact bounded a old
  · rw [genesis, List.filterMap_append]
    refine List.rel_append (blocks.imp fun k f stands => ?_) (forall₂_replicate fun f asked => ?_)
    · exact ⟨stands.1.trans kept.length_le, stands.2.trans (parentOf_isPrefix kept stands.1).symm⟩
    · obtain ⟨r, sent, update⟩ := List.mem_filterMap.mp asked
      obtain ⟨d, parent, extended⟩ := requests_extend c l r sent f update
      refine ⟨kept.length_le, extended.finalized.trans (parent.trans ?_)⟩
      exact (parentOf_isPrefix kept le_rfl).symm

end LogNode

/-- The tables hold a log with a property of it and of the requests so far. -/
def Traced (p : LogNode → List EngineRequest → Prop) (genesis : B256) (t : TracedNode) : Prop :=
  ∃ l, StoresLog t.node l ∧ l.exec.genesisHash = genesis ∧ p l t.sent

theorem TracedNode.call_traced {p : LogNode → List EngineRequest → Prop} {genesis : B256} {t : TracedNode}
    {c : LogCall} (allowed : t.node.Allowed c)
    (step : ∀ l, StoresLog t.node l → p l t.sent → p (l.call c).2 (t.sent ++ l.requests c))
    (traced : Traced p genesis t) : Traced p genesis (t.call c).2 := by
  obtain ⟨l, stores, own, holds⟩ := traced
  have word := stores.messageCount ▸ allowed.1
  refine ⟨(l.call c).2, (stores.call allowed).1, (l.call_results c).1.trans own, ?_⟩
  change p (l.call c).2 (t.sent ++ t.node.requests c)
  rw [stores.requests word]
  exact step l stores holds

/-- Every result was announced: its block was the head of a forkchoice update that finalized the block
before it. No update is more than one block ahead of what it finalizes. -/
theorem executed_blocks_were_heads {start : ExecNode} (empty : EmptyStore start.db)
    (zero : start.db.count .messageCount = some 0) (calls : List LogCall)
    (allowed : AllAllowed (fun c t => t.node.Allowed c) TracedNode.call calls ⟨start, []⟩) {t : TracedNode}
    (ended : (runs TracedNode.call calls ⟨start, []⟩).2 = t) :
    (∀ i r, t.node.db.get .messageResult i = some r → ∃ parent,
      parentHash start.exec.genesisHash t.node.db i = .ok parent ∧
      .forkChoiceUpdated ⟨r.blockHash, parent, parent⟩ none ∈ t.sent) ∧
    ∀ r ∈ t.sent, ∀ f ∈ r.forkchoice, f.OneAhead := by
  have traced : Traced (fun l sent => l.Announced sent ∧ ∀ r ∈ sent, ∀ f ∈ r.forkchoice, f.OneAhead)
      start.exec.genesisHash (runs TracedNode.call calls ⟨start, []⟩).2 := by
    refine runs_invariant (fun c t may => TracedNode.call_traced may fun l _ held => ?_) calls allowed
      ⟨_, stores_new empty zero, rfl, fun i r found => ?_, List.forall_mem_nil _⟩
    · refine ⟨held.1.call c, List.forall_mem_append.mpr ⟨held.2, fun r sent f asked => ?_⟩⟩
      obtain ⟨d, _, extended⟩ := l.requests_extend c r sent f asked
      exact extended.oneAhead
    · cases found
  rw [ended] at traced
  obtain ⟨l, stores, own, announced, ahead⟩ := traced
  refine ⟨fun i r found => ?_, ahead⟩
  rw [stores.result] at found
  have inside := (List.getElem?_eq_some_iff.mp found).1
  have parent := stores.parentHash (Nat.le_of_lt inside)
  rw [stores.exec, own] at parent
  refine ⟨_, parent, ?_⟩
  have told := announced i r found
  rwa [own] at told

/-- A call cuts off no message that is executed. -/
def ExecNode.Uncut (c : LogCall) (n : ExecNode) : Prop := ∀ first ∈ c.reorgsAt,
  headMessageIndex n.db = .ok (2 ^ 64 - 1) ∨ ∃ head < first, headMessageIndex n.db = .ok head

omit [PayloadBuilder] in
theorem ExecNode.Uncut.results_le {n : ExecNode} {l : LogNode} {c : LogCall} (uncut : n.Uncut c)
    (stores : StoresLog n l) (word : l.log.entries.length < 2 ^ 64) :
    ∀ first ∈ c.reorgsAt, l.log.results.length ≤ first := by
  intro first cut
  have bound := l.log.executed
  have head := stores.headMessageIndex
  rcases uncut first cut with none | ⟨k, low, found⟩
  · rw [none] at head
    cases length : l.log.results.length with
    | zero => exact Nat.zero_le _
    | succ k =>
      rw [length, if_neg (Nat.succ_ne_zero k)] at head
      have same := Except.ok.inj head
      omega
  · rw [found] at head
    have same := Except.ok.inj head
    split at same <;> omega

theorem LogNode.results_kept {c : LogCall} {l : LogNode} (uncut : ∀ first ∈ c.reorgsAt, l.log.results.length ≤ first) :
    l.log.results <+: (l.call c).2.log.results := by
  have changes := l.call_changes c
  generalize (l.call c).2 = l' at changes ⊢
  cases changes with
  | nothing => exact List.prefix_refl _
  | appended ms => exact List.prefix_refl _
  | reorged ms cut =>
    refine ⟨[], ?_⟩
    rw [List.append_nil, ExecutedLog.results_append, ExecutedLog.results_truncate, List.take_of_length_le (uncut _ cut)]
  | clocked ts => exact List.prefix_refl _
  | recorded r ts more =>
    rw [ExecutedLog.results_record more]
    exact List.prefix_append _ _

/-- Where no reorg cuts off an executed message, the finalized blocks of a run follow the chain and
never go back. -/
theorem finalized_never_goes_back {start : ExecNode} (empty : EmptyStore start.db)
    (zero : start.db.count .messageCount = some 0) (calls : List LogCall)
    (allowed : AllAllowed (fun c t => t.node.Allowed c ∧ t.node.Uncut c) TracedNode.call calls ⟨start, []⟩)
    {t : TracedNode} (ended : (runs TracedNode.call calls ⟨start, []⟩).2 = t) :
    ∃ positions : List Nat, positions.Pairwise (· ≤ ·) ∧
      List.Forall₂ (fun k f => parentHash start.exec.genesisHash t.node.db k = .ok f.finalizedBlockHash) positions
        (t.sent.filterMap EngineRequest.forkchoice) := by
  have traced : Traced LogNode.FinalizedInOrder start.exec.genesisHash (runs TracedNode.call calls ⟨start, []⟩).2 := by
    refine runs_invariant (fun c t may => TracedNode.call_traced may.1 fun l stores held => ?_) calls allowed
      ⟨_, stores_new empty zero, rfl, [], .nil, .nil⟩
    exact held.call (LogNode.results_kept (may.2.results_le stores (stores.messageCount ▸ may.1.1)))
  rw [ended] at traced
  obtain ⟨l, stores, own, positions, sorted, blocks⟩ := traced
  refine ⟨positions, sorted, blocks.imp fun k f stands => ?_⟩
  have parent := stores.parentHash stands.1
  rw [stores.exec, own] at parent
  rw [parent, stands.2, own]

end

section Samples
attribute [local instance] sampleBuilder

/-- Two executions around a reorg of the message that is not executed yet. -/
def sampleTrace : List LogCall :=
  [.addMessagesAndEndBatch 0 [sampleMessage 3, sampleMessage 4] none, .executeNextMsg .allValid,
    .addMessagesAndReorg 1 [sampleMessage 5] none, .executeNextMsg .allValid]

def sampleTraced : TracedNode := (runs TracedNode.call sampleTrace ⟨sampleNode, []⟩).2

theorem sample_blocks_were_heads :
    (∀ i r, sampleTraced.node.db.get .messageResult i = some r → ∃ parent,
      parentHash sampleNode.exec.genesisHash sampleTraced.node.db i = .ok parent ∧
      .forkChoiceUpdated ⟨r.blockHash, parent, parent⟩ none ∈ sampleTraced.sent) ∧
    ∀ r ∈ sampleTraced.sent, ∀ f ∈ r.forkchoice, f.OneAhead :=
  executed_blocks_were_heads sampleNode_empty rfl sampleTrace ⟨by decide +kernel, by decide +kernel, by decide +kernel,
    by decide +kernel, trivial⟩ rfl

theorem sample_finalized_in_order : ∃ positions : List Nat, positions.Pairwise (· ≤ ·) ∧
    List.Forall₂ (fun k f => parentHash sampleNode.exec.genesisHash sampleTraced.node.db k = .ok f.finalizedBlockHash)
      positions (sampleTraced.sent.filterMap EngineRequest.forkchoice) := by
  refine finalized_never_goes_back sampleNode_empty rfl sampleTrace ⟨⟨by decide +kernel, ?_⟩, ⟨by decide +kernel, ?_⟩,
    ⟨by decide +kernel, ?_⟩, ⟨by decide +kernel, ?_⟩, trivial⟩ rfl
  · rintro _ ⟨⟩
  · rintro _ ⟨⟩
  · rintro _ ⟨⟩
    exact .inr ⟨0, Nat.one_pos, by rfl⟩
  · rintro _ ⟨⟩

end Samples
end NitroRs
