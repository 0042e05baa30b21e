import NitroRs.Inbox.ByteIngest
import NitroRs.Streamer.ByteExecution
import NitroRs.Streamer.InFlight

/-! The node over its database: the calls of the inbox reader, the streamer and the RPC backend in
any order, on the bytes and on the tables. -/
namespace NitroRs
open Checked KeyValue Outcome Simulation

/-- A call of one of the components. A digest may be awaited between `pick` and `finish`. -/
inductive NodeCall where
  | initializeTracker
  | addDelayedMessages (messages : List DelayedInput) (snapSync : Option SnapSyncConfig)
  | addSequencerBatches (batches : List SequencerInboxBatch)
  | addSequencerBatchesAndStream (batches : List SequencerInboxBatch)
  | reorgDelayedTo (newDelayedCount : Nat)
  | reorgBatchesToDb (count : Nat)
  | getBatchMetadata (seqnum : Nat)
  | getBatchCount
  | findInboxBatchContainingMessage (pos : Nat)
  | getDelayedAcc (seqnum : Nat)
  | getDelayedMessage (seqnum : Nat)
  | addMessagesAndEndBatchImpl (first : Nat) (confirmed : Bool) (messages : List MessageWithMetadataAndBlockInfo)
      (track : Option Nat)
  | reorgAtAndEndBatch (first : Nat)
  | getMessage (index : Nat)
  | resultAtMessageIndex (index : Nat)
  | headMessageIndex
  | executeNextMsg (answers : EngineAnswers)
  | pick
  | finish (answers : EngineAnswers)
  | restart (exec : RethExecEngine)

inductive NodeAnswer where
  | done
  | metadata (metadata : BatchMetadata)
  | number (n : Nat)
  | found (at_ : Nat × Bool)
  | accumulator (acc : B256)
  | delayed (msg : L1IncomingMessage)
  | message (m : MessageWithMetadata)
  | result (result : Option MessageResult)
  | executed (more : Bool)

/-- The numbers of a call are `u64`s. -/
def NodeCall.Fits : NodeCall → Prop
  | addDelayedMessages messages _ => ∀ m ∈ messages, DelayedInput.Fits m
  | addSequencerBatches batches | addSequencerBatchesAndStream batches => ∀ b ∈ batches, b.Fits
  | reorgDelayedTo n | reorgBatchesToDb n | getBatchMetadata n | findInboxBatchContainingMessage n
  | getDelayedAcc n | getDelayedMessage n | getMessage n | resultAtMessageIndex n | reorgAtAndEndBatch n => n < 2 ^ 64
  | addMessagesAndEndBatchImpl first _ messages _ =>
    first < 2 ^ 64 ∧ ∀ m ∈ messages, SledStreamer.Valid m.messageWithMeta
  | initializeTracker | getBatchCount | headMessageIndex | executeNextMsg _ | pick | finish _ | restart _ => True

/-- The node on the bytes of its database. -/
structure ByteNode where
  tracker : SledTracker
  exec : RethExecEngine
  inFlight : Option Digest

/-- The node on its tables. -/
structure TableNode where
  tracker : InboxTracker
  exec : RethExecEngine
  inFlight : Option Digest

namespace ByteNode

def new (db : SledDb) (exec : RethExecEngine) : ByteNode := ⟨.new db, exec, none⟩

/-- A call of the tracker. -/
def track {α : Type} (x : EStateM (Stop StorageError) SledTracker α) (f : α → NodeAnswer) (n : ByteNode) :
    Except Panic (Except ExecError NodeAnswer × ByteNode) :=
  match x n.tracker with
  | .ok a tracker => .ok (.ok (f a), { n with tracker })
  | .error (.error e) tracker => .ok (.error (.storage e), { n with tracker })
  | .error (.panic p) _ => .error p

/-- A call that reads only. -/
def look {α : Type} (x : Except (Stop StorageError) α) (f : α → NodeAnswer) (n : ByteNode) :
    Except Panic (Except ExecError NodeAnswer × ByteNode) :=
  match x with
  | .ok a => .ok (.ok (f a), n)
  | .error (.error e) => .ok (.error (.storage e), n)
  | .error (.panic p) => .error p

/-- A call of the streamer with its engine. -/
def execute {α : Type} (x : EStateM (Stop ExecError) SledExecNode α) (f : α → NodeAnswer) (n : ByteNode) :
    Except Panic (Except ExecError NodeAnswer × ByteNode) :=
  match x ⟨n.tracker.db, n.exec⟩ with
  | .ok a e => .ok (.ok (f a), { n with tracker := { n.tracker with db := e.db }, exec := e.exec })
  | .error (.error cause) e => .ok (.error cause, { n with tracker := { n.tracker with db := e.db }, exec := e.exec })
  | .error (.panic p) _ => .error p

/-- The first half of `execute_next_msg`, unless a digest is awaited. -/
def pick (rlp : AlloyRlp) (n : ByteNode) : Except Panic (Except ExecError NodeAnswer × ByteNode) :=
  if n.inFlight.isSome then .ok (.ok .done, n)
  else
    match SledStreamer.pickNextMsg rlp n.tracker.db with
    | .ok none => .ok (.ok .done, n)
    | .ok (some (msgIdx, msg, _)) =>
      match SledStreamer.beginDigest rlp n.tracker.db msgIdx msg n.exec with
      | .ok d exec => .ok (.ok .done, { n with exec, inFlight := some d })
      | .error (.error e) exec => .ok (.error e, { n with exec })
      | .error (.panic p) _ => .error p
    | .error (.error e) => .ok (.error (.storage e), n)
    | .error (.panic p) => .error p

/-- The second half, on the database as it is by then. -/
def finish [PayloadBuilder] (rlp : AlloyRlp) (answers : EngineAnswers) (n : ByteNode) :
    Except ExecError NodeAnswer × ByteNode :=
  match n.inFlight with
  | none => (.ok .done, n)
  | some d =>
    match RethExecEngine.finishDigest answers d n.exec with
    | .ok res exec =>
      let db := (SledStreamer.storeResult rlp d.msgIdx res .new).write n.tracker.db
      (.ok .done, ⟨{ n.tracker with db }, exec, none⟩)
    | .error e exec => (.error (.engine e), ⟨n.tracker, exec, none⟩)

/-- A call, its answer and the node behind it, unless it panics. -/
def call [Externals] [PayloadBuilder] (rlp : AlloyRlp) :
    NodeCall → ByteNode → Except Panic (Except ExecError NodeAnswer × ByteNode)
  | .initializeTracker => track (SledTracker.initializeTracker rlp) fun _ => .done
  | .addDelayedMessages messages snapSync => track (SledTracker.addDelayedMessages rlp messages snapSync) fun _ => .done
  | .addSequencerBatches batches => track (SledTracker.addSequencerBatches rlp batches) fun _ => .done
  | .addSequencerBatchesAndStream batches => track (SledTracker.addSequencerBatchesAndStream rlp batches) fun _ => .done
  | .reorgDelayedTo count => track (SledTracker.reorgDelayedTo rlp count) fun _ => .done
  | .reorgBatchesToDb count => track (SledTracker.reorgBatchesToDb rlp count) .number
  | .getBatchMetadata seqnum => track (SledTracker.getBatchMetadata rlp seqnum) .metadata
  | .getBatchCount => track (SledTracker.getBatchCount rlp) .number
  | .findInboxBatchContainingMessage pos => track (SledTracker.findInboxBatchContainingMessage rlp pos) .found
  | .getDelayedAcc seqnum => fun n => look (onBytes (SledTracker.getDelayedAcc n.tracker.db seqnum)) .accumulator n
  | .getDelayedMessage seqnum => fun n => look (onBytes (SledTracker.getDelayedMessage n.tracker.db seqnum)) .delayed n
  | .addMessagesAndEndBatchImpl first confirmed messages tracked =>
    track (SledTracker.onStreamer (SledStreamer.addMessagesAndEndBatchImpl rlp first confirmed messages tracked))
      fun _ => .done
  | .reorgAtAndEndBatch first => track (SledTracker.onStreamer (SledStreamer.reorgAtAndEndBatch rlp first)) fun _ => .done
  | .getMessage index => fun n => look (SledStreamer.getMessage rlp n.tracker.db index) .message n
  | .resultAtMessageIndex index => fun n => look (SledStreamer.resultAtMessageIndex rlp n.tracker.db index) .result n
  | .headMessageIndex => fun n => look (SledStreamer.headMessageIndex rlp n.tracker.db) .number n
  | .executeNextMsg answers => execute (SledStreamer.executeNextMsg rlp answers) .executed
  | .pick => pick rlp
  | .finish answers => fun n => .ok (n.finish rlp answers)
  | .restart exec => fun n => .ok (.ok .done, .new n.tracker.db exec)

end ByteNode

namespace TableNode

def new (db : Db) (exec : RethExecEngine) : TableNode := ⟨.new db, exec, none⟩

def track {α : Type} (x : EStateM Error InboxTracker α) (f : α → NodeAnswer) (n : TableNode) :
    Except EngineError NodeAnswer × TableNode :=
  match x n.tracker with
  | .ok a tracker => (.ok (f a), { n with tracker })
  | .error e tracker => (.error (.database e), { n with tracker })

def look {α : Type} (x : Except Error α) (f : α → NodeAnswer) (n : TableNode) : Except EngineError NodeAnswer × TableNode :=
  ((x.map f).mapError .database, n)

def execute {α : Type} (x : EStateM EngineError ExecNode α) (f : α → NodeAnswer) (n : TableNode) :
    Except EngineError NodeAnswer × TableNode :=
  match x ⟨n.tracker.db, n.exec⟩ with
  | .ok a e => (.ok (f a), { n with tracker := { n.tracker with db := e.db }, exec := e.exec })
  | .error cause e => (.error cause, { n with tracker := { n.tracker with db := e.db }, exec := e.exec })

def pick (n : TableNode) : Except EngineError NodeAnswer × TableNode :=
  if n.inFlight.isSome then (.ok .done, n)
  else
    match TransactionStreamer.pickNextMsg n.tracker.db with
    | .ok none => (.ok .done, n)
    | .ok (some (msgIdx, msg, _)) =>
      match RethExecEngine.beginDigest n.tracker.db msgIdx msg n.exec with
      | .ok d exec => (.ok .done, { n with exec, inFlight := some d })
      | .error e exec => (.error e, { n with exec })
    | .error e => (.error (.database e), n)

def finish [PayloadBuilder] (answers : EngineAnswers) (n : TableNode) : Except EngineError NodeAnswer × TableNode :=
  match n.inFlight with
  | none => (.ok .done, n)
  | some d =>
    match RethExecEngine.finishDigest answers d n.exec with
    | .ok res exec =>
      let db := n.tracker.db.write (TransactionStreamer.storeResult d.msgIdx res)
      (.ok .done, ⟨{ n.tracker with db }, exec, none⟩)
    | .error e exec => (.error e, ⟨n.tracker, exec, none⟩)

def call [Externals] [PayloadBuilder] : NodeCall → TableNode → Except EngineError NodeAnswer × TableNode
  | .initializeTracker => track InboxTracker.initializeTracker fun _ => .done
  | .addDelayedMessages messages snapSync => track (InboxTracker.addDelayedMessages messages snapSync) fun _ => .done
  | .addSequencerBatches batches => track (InboxTracker.addSequencerBatches batches) fun _ => .done
  | .addSequencerBatchesAndStream batches => track (InboxTracker.addSequencerBatchesAndStream batches) fun _ => .done
  | .reorgDelayedTo count => track (InboxTracker.reorgDelayedTo count) fun _ => .done
  | .reorgBatchesToDb count => track (InboxTracker.reorgBatchesToDb count) .number
  | .getBatchMetadata seqnum => track (InboxTracker.getBatchMetadata seqnum) .metadata
  | .getBatchCount => track InboxTracker.getBatchCount .number
  | .findInboxBatchContainingMessage pos => track (InboxTracker.findInboxBatchContainingMessage pos) .found
  | .getDelayedAcc seqnum => fun n => look (InboxTracker.getDelayedAcc n.tracker.db seqnum) .accumulator n
  | .getDelayedMessage seqnum => fun n => look (InboxTracker.getDelayedMessage n.tracker.db seqnum) .delayed n
  | .addMessagesAndEndBatchImpl first confirmed messages tracked =>
    track (InboxTracker.onStreamer (TransactionStreamer.addMessagesAndEndBatchImpl first confirmed messages tracked))
      fun _ => .done
  | .reorgAtAndEndBatch first => track (InboxTracker.onStreamer (TransactionStreamer.reorgAtAndEndBatch first)) fun _ => .done
  | .getMessage index => fun n => look (TransactionStreamer.getMessage n.tracker.db index) .message n
  | .resultAtMessageIndex index => fun n => (.ok (.result (n.tracker.db.get .messageResult index)), n)
  | .headMessageIndex => fun n => look (RethExecEngine.headMessageIndex n.tracker.db) .number n
  | .executeNextMsg answers => execute (TransactionStreamer.executeNextMsg answers) .executed
  | .pick => pick
  | .finish answers => finish answers
  | .restart exec => fun n => (.ok .done, .new n.tracker.db exec)

end TableNode

/-- The tables in bytes, and the same cache, engine and awaited digest, whose index is a `u64`. -/
structure PersistedNode (rlp : AlloyRlp) (s : ByteNode) (t : TableNode) : Prop where
  tracker : PersistedTracker rlp s.tracker t.tracker
  exec : s.exec = t.exec
  inFlight : s.inFlight = t.inFlight
  index : ∀ d, t.inFlight = some d → d.msgIdx < 2 ^ 64

/-- The same answer, or an error that the tables have, too. -/
abbrev SameAnswer : Except ExecError NodeAnswer → Except EngineError NodeAnswer → Prop := Attempted Eq ExecError.Is

namespace PersistedNode
variable {rlp : AlloyRlp} {s s' : ByteNode} {t : TableNode} {a : Except ExecError NodeAnswer}

/-- A call on bytes that ended did what it does on the tables. -/
abbrev Related (rlp : AlloyRlp) (ended : Except Panic (Except ExecError NodeAnswer × ByteNode))
    (typed : Except EngineError NodeAnswer × TableNode) : Prop :=
  ∀ a s', ended = .ok (a, s') → PersistedNode rlp s' typed.2 ∧ SameAnswer a typed.1

theorem new {tree : SledDb} {db : Db} (persisted : Persisted rlp tree db) (exec : RethExecEngine) :
    PersistedNode rlp (.new tree exec) (.new db exec) where
  tracker := ⟨persisted, rfl, fun i metadata hit => by cases hit⟩
  exec := rfl
  inFlight := rfl
  index d awaited := by cases awaited

theorem track {α β : Type} {A : α → β → Prop} {x : EStateM (Stop StorageError) SledTracker α}
    {y : EStateM Error InboxTracker β} {f : α → NodeAnswer} {g : β → NodeAnswer} (same : PersistedNode rlp s t)
    (matched : Matches (PersistedTracker rlp) A StorageError.Is (x s.tracker) (y t.tracker))
    (values : ∀ a b, A a b → f a = g b) : Related rlp (s.track x f) (t.track y g) := by
  intro a s' ran
  unfold ByteNode.track at ran
  unfold TableNode.track
  generalize x s.tracker = left at matched ran
  generalize y t.tracker = right at matched ⊢
  cases matched with
  | ok tracker value =>
    cases ran
    exact ⟨⟨tracker, same.exec, same.inFlight, same.index⟩, .ok (values _ _ value)⟩
  | error tracker cause =>
    cases ran
    subst cause
    exact ⟨⟨tracker, same.exec, same.inFlight, same.index⟩, .error (.storage _)⟩
  | panic => cases ran

theorem look {α : Type} {x : Except (Stop StorageError) α} {y : Except Error α} {f : α → NodeAnswer}
    (same : PersistedNode rlp s t) (agrees : Agrees Eq StorageError.Is x y) : Related rlp (s.look x f) (t.look y f) := by
  intro a s' ran
  cases agrees with
  | ok value =>
    subst value
    cases ran
    exact ⟨same, .ok rfl⟩
  | error cause =>
    subst cause
    cases ran
    exact ⟨same, .error (.storage _)⟩
  | panic => cases ran

theorem execute {α : Type} {x : EStateM (Stop ExecError) SledExecNode α} {y : EStateM EngineError ExecNode α}
    {f : α → NodeAnswer} (same : PersistedNode rlp s t)
    (matched : Matches (SledStreamer.PersistedExec rlp) Eq ExecError.Is (x ⟨s.tracker.db, s.exec⟩) (y ⟨t.tracker.db, t.exec⟩)) :
    Related rlp (s.execute x f) (t.execute y f) := by
  intro a s' ran
  unfold ByteNode.execute at ran
  unfold TableNode.execute
  generalize x ⟨s.tracker.db, s.exec⟩ = left at matched ran
  generalize y ⟨t.tracker.db, t.exec⟩ = right at matched ⊢
  cases matched with
  | ok node value =>
    subst value
    cases ran
    exact ⟨⟨⟨node.db, same.tracker.cache, same.tracker.cached⟩, node.exec, same.inFlight, same.index⟩, .ok rfl⟩
  | error node cause =>
    cases ran
    exact ⟨⟨⟨node.db, same.tracker.cache, same.tracker.cached⟩, node.exec, same.inFlight, same.index⟩, .error cause⟩
  | panic => cases ran

theorem pick (lawful : rlp.Lawful) (same : PersistedNode rlp s t) : Related rlp (s.pick rlp) t.pick := by
  obtain ⟨⟨tree, cache⟩, exec, inFlight⟩ := s
  obtain ⟨⟨db, cache'⟩, exec', inFlight'⟩ := t
  obtain ⟨⟨persisted, rfl, cached⟩, rfl, rfl, index⟩ := same
  intro a s' ran
  unfold ByteNode.pick at ran
  unfold TableNode.pick
  cases inFlight with
  | some d =>
    cases ran
    exact ⟨⟨⟨persisted, rfl, cached⟩, rfl, rfl, index⟩, .ok rfl⟩
  | none =>
    have unchanged : PersistedNode rlp ⟨⟨tree, cache⟩, exec, none⟩ ⟨⟨db, cache⟩, exec, none⟩ :=
      ⟨⟨persisted, rfl, cached⟩, rfl, rfl, index⟩
    have agrees := SledStreamer.pickNextMsg_agrees lawful persisted
    have inside {idx msg prefetch} := @SledStreamer.pickNextMsg_lt rlp tree db persisted idx msg prefetch
    simp only [Option.isSome_none, Bool.false_eq_true, if_false] at ran ⊢
    generalize SledStreamer.pickNextMsg rlp tree = picked at agrees ran
    generalize TransactionStreamer.pickNextMsg db = picked' at agrees inside ⊢
    cases agrees with
    | panic => cases ran
    | error cause =>
      subst cause
      cases ran
      exact ⟨unchanged, .error (.storage _)⟩
    | ok equal =>
      subst equal
      rename_i next
      cases next with
      | none =>
        cases ran
        exact ⟨unchanged, .ok rfl⟩
      | some next =>
        obtain ⟨idx, msg, prefetch⟩ := next
        have began := SledStreamer.beginDigest_matches lawful persisted msg (inside rfl) exec
        have numbered := beginDigest_cases db idx msg exec
        dsimp only at ran ⊢
        generalize SledStreamer.beginDigest rlp tree idx msg exec = left at began ran
        generalize RethExecEngine.beginDigest db idx msg exec = right at began numbered ⊢
        cases began with
        | panic => cases ran
        | error engine cause =>
          subst engine
          cases ran
          exact ⟨⟨⟨persisted, rfl, cached⟩, rfl, rfl, index⟩, .error cause⟩
        | ok engine value =>
          subst engine value
          cases ran
          refine ⟨⟨⟨persisted, rfl, cached⟩, rfl, rfl, ?_⟩, .ok rfl⟩
          rintro d ⟨⟩
          rcases numbered with ⟨_, _, given⟩ | ⟨_, failed⟩
          · cases given
            exact inside rfl
          · cases failed

theorem finish [PayloadBuilder] (same : PersistedNode rlp s t) (answers : EngineAnswers) :
    PersistedNode rlp (s.finish rlp answers).2 (t.finish answers).2 ∧
      SameAnswer (s.finish rlp answers).1 (t.finish answers).1 := by
  obtain ⟨⟨tree, cache⟩, exec, inFlight⟩ := s
  obtain ⟨⟨db, cache'⟩, exec', inFlight'⟩ := t
  obtain ⟨⟨persisted, rfl, cached⟩, rfl, rfl, index⟩ := same
  cases inFlight with
  | none => exact ⟨⟨⟨persisted, rfl, cached⟩, rfl, rfl, index⟩, .ok rfl⟩
  | some d =>
    unfold ByteNode.finish TableNode.finish
    dsimp only
    have nothing : ∀ d, (none : Option Digest) = some d → d.msgIdx < 2 ^ 64 := by rintro d ⟨⟩
    cases RethExecEngine.finishDigest answers d exec with
    | error e engine => exact ⟨⟨⟨persisted, rfl, cached⟩, rfl, rfl, nothing⟩, .error (.engine e)⟩
    | ok res engine =>
      refine ⟨⟨⟨?_, rfl, cached⟩, rfl, rfl, nothing⟩, .ok rfl⟩
      change Persisted rlp ((SledStreamer.storeResult rlp d.msgIdx res .new).write tree)
        (db.write (TransactionStreamer.storeResult d.msgIdx res))
      rw [SledStreamer.storeResult_ops]
      exact persisted.write (List.forall_mem_singleton.mpr ⟨index d rfl, trivial⟩)

/-- One call of a component. -/
theorem call [Externals] [PayloadBuilder] (lawful : rlp.Lawful) (same : PersistedNode rlp s t) {c : NodeCall}
    (fits : c.Fits) : Related rlp (ByteNode.call rlp c s) (TableNode.call c t) := by
  have onDb (tree : SledDb) (db : Db) (persisted : Persisted rlp tree db) : PersistedTracker rlp
      { s.tracker with db := tree } { t.tracker with db } := ⟨persisted, same.tracker.cache, same.tracker.cached⟩
  cases c with
  | initializeTracker => exact same.track (SledTracker.initializeTracker_matches same.tracker) fun _ _ _ => rfl
  | addDelayedMessages messages snapSync =>
    exact same.track (SledTracker.addDelayedMessages_matches lawful same.tracker fits snapSync) fun _ _ _ => rfl
  | addSequencerBatches batches =>
    exact same.track (SledTracker.addSequencerBatches_matches lawful same.tracker fits) fun _ _ _ => rfl
  | addSequencerBatchesAndStream batches =>
    exact same.track (SledTracker.addSequencerBatchesAndStream_matches lawful same.tracker fits) fun _ _ _ => rfl
  | reorgDelayedTo count =>
    exact same.track (SledTracker.reorgDelayedTo_matches lawful same.tracker fits) fun _ _ _ => rfl
  | reorgBatchesToDb count =>
    exact same.track (SledTracker.reorgBatchesToDb_matches lawful same.tracker fits) fun _ _ equal => by rw [equal]
  | getBatchMetadata seqnum =>
    exact same.track (SledTracker.getBatchMetadata_matches lawful same.tracker fits) fun _ _ equal => by rw [equal.1]
  | getBatchCount =>
    exact same.track (SledTracker.getBatchCount_matches lawful same.tracker) fun _ _ equal => by rw [equal.1]
  | findInboxBatchContainingMessage pos =>
    exact same.track (SledTracker.findInboxBatchContainingMessage_matches lawful same.tracker pos) fun _ _ equal => by
      rw [equal]
  | getDelayedAcc seqnum =>
    refine same.look ?_
    rw [SledTracker.getDelayedAcc_eq same.tracker.db fits]
    exact agrees_onBytes _
  | getDelayedMessage seqnum =>
    refine same.look ?_
    rw [SledTracker.getDelayedMessage_eq same.tracker.db fits]
    exact agrees_onBytes _
  | addMessagesAndEndBatchImpl first confirmed messages tracked =>
    have appended := SledStreamer.addMessagesAndEndBatchImpl_matches lawful same.tracker.db fits.2 fits.1 confirmed tracked
    exact same.track (.zoom appended onDb) fun _ _ _ => rfl
  | reorgAtAndEndBatch first =>
    have cut := SledStreamer.addMessagesAndReorg_matches same.tracker.db (List.forall_mem_nil _) fits none
    exact same.track (.zoom cut onDb) fun _ _ _ => rfl
  | getMessage index =>
    refine same.look ?_
    rw [SledStreamer.getMessage_eq lawful same.tracker.db fits]
    exact agrees_onBytes _
  | resultAtMessageIndex index =>
    intro a s' ran
    have read := SledStreamer.resultAtMessageIndex_eq lawful same.tracker.db fits
    change s.look (SledStreamer.resultAtMessageIndex rlp s.tracker.db index) .result = _ at ran
    rw [read] at ran
    cases ran
    exact ⟨same, .ok rfl⟩
  | headMessageIndex =>
    refine same.look ?_
    rw [SledStreamer.headMessageIndex_eq lawful same.tracker.db]
    exact agrees_onBytes _
  | executeNextMsg answers =>
    have node : SledStreamer.PersistedExec rlp ⟨s.tracker.db, s.exec⟩ ⟨t.tracker.db, t.exec⟩ := ⟨same.tracker.db, same.exec⟩
    exact same.execute (SledStreamer.executeNextMsg_matches lawful answers node)
  | pick => exact same.pick lawful
  | finish answers =>
    intro a s' ran
    have ended : s.finish rlp answers = (a, s') := Except.ok.inj ran
    have both := same.finish answers
    rwa [ended] at both
  | restart exec =>
    intro a s' ran
    cases ran
    exact ⟨.new same.tracker.db exec, .ok rfl⟩

/-- A run of calls, one by one. -/
theorem run [Externals] [PayloadBuilder] (lawful : rlp.Lawful) (same : PersistedNode rlp s t) {calls : List NodeCall}
    (fits : ∀ c ∈ calls, NodeCall.Fits c) {answers : List (Except ExecError NodeAnswer)} {n : ByteNode}
    (ran : Simulation.run (ByteNode.call rlp) calls s = .ok (answers, n)) :
    PersistedNode rlp n (runs TableNode.call calls t).2 ∧
      List.Forall₂ SameAnswer answers (runs TableNode.call calls t).1 := by
  have each (c : NodeCall) (s : ByteNode) (t : TableNode) (small : c.Fits) (same : PersistedNode rlp s t) :
      Related rlp (ByteNode.call rlp c s) (TableNode.call c t) := same.call lawful small
  exact run_related (R := PersistedNode rlp) (A := SameAnswer) each calls fits same ran

end PersistedNode
end NitroRs
