import NitroRs.Inbox.ReadableDelayed
import NitroRs.Node.StorageRuns

/-! What the bytes of the database are, after any run of calls, and that no call finds bytes which are
not what it reads there. -/
namespace NitroRs
open Checked KeyValue Outcome Simulation

/-- A value that reads back, whole, under its key. -/
inductive WellFormed (rlp : AlloyRlp) : Bytes → Bytes → Prop where
  | count (c : Counter) {value : Bytes} {n : UInt64} (read : rlp.u64.decode value = .ok (n, [])) :
      WellFormed rlp c.key value
  | message (i : Nat) {value : Bytes} {m : MessageWithMetadata}
      (read : MessageWithMetadata.decode rlp value = .ok (m, [])) : WellFormed rlp (Table.recordKey .message i) value
  | blockHash (i : Nat) {value : Bytes} {h : BlockHashDbValue} (read : (BlockHashDbValue.codec rlp).decode value = .ok (h, [])) :
      WellFormed rlp (Table.recordKey .blockHashInputFeed i) value
  | blockMetadata (i : Nat) (value : Bytes) : WellFormed rlp (Table.recordKey .blockMetadataInputFeed i) value
  | missing (i : Nat) : WellFormed rlp (Table.recordKey .missingBlockMetadataInputFeed i) []
  | result (i : Nat) {value : Bytes} {r : MessageResult} (read : MessageResult.decode rlp value = .ok (r, [])) :
      WellFormed rlp (Table.recordKey .messageResult i) value
  | delayed (i : Nat) {value : Bytes} {acc : B256} {msg : L1IncomingMessage}
      (read : InboxTracker.splitEntry .new value = .ok (acc, msg)) :
      WellFormed rlp (Table.recordKey .rlpDelayedMessage i) value
  | batch (i : Nat) {value : Bytes} {metadata : BatchMetadata} (read : BatchMetadata.decode rlp value = .ok metadata) :
      WellFormed rlp (Table.recordKey .sequencerBatchMeta i) value
  | sequenced (k : Nat) {value : Bytes} {n : UInt64} (read : rlp.u64.decode value = .ok (n, [])) :
      WellFormed rlp (Table.recordKey .delayedSequenced k) value

/-- A failure to decode what the database holds. -/
def StorageError.isUndecodable : StorageError → Bool
  | .node cause => cause.isUndecodable
  | .rlp _ => true
  | .iterator _ => false
  | .reorgToFutureBatch cause => cause.isUndecodable

def ExecError.isUndecodable : ExecError → Bool
  | .engine _ => false
  | .storage cause => cause.isUndecodable

/-- The errors of a call that are no failure to decode what the database holds. -/
def NodeCall.Explains : NodeCall → Error → Prop
  | .addDelayedMessages messages _ => InboxTracker.DelayedError messages
  | _ => Error.Decodes

/-- An answer that is no failure to decode what the database holds: a message among the arguments of
the call may be too short. -/
def NodeCall.Decodes (c : NodeCall) (a : Except ExecError NodeAnswer) : Prop :=
  ∀ e, a = .error e → e.isUndecodable = true → e = .storage (.node .unexpectedEof) ∧
    ∃ messages snapSync, c = .addDelayedMessages messages snapSync ∧
      ∃ m ∈ messages, parseIncomingL1MessageLegacy m.2.2 = .error .unexpectedEof

/-- An error of the tables stands for one that is no failure to decode. -/
theorem NodeCall.Explains.decodes {c : NodeCall} {a : Except ExecError NodeAnswer} {b : Except EngineError NodeAnswer}
    (same : SameAnswer a b) (explains : ∀ cause, b = .error (.database cause) → c.Explains cause) : c.Decodes a := by
  rintro e rfl undecodable
  cases same with
  | error same =>
    cases same with
    | engine => cases undecodable
    | storage cause =>
      have explained := explains cause rfl
      change cause.isUndecodable = true at undecodable
      have plain (decodes : cause.Decodes) : False := Bool.false_ne_true (decodes.symm.trans undecodable)
      cases c with
      | addDelayedMessages messages snapSync =>
        rcases explained with decodes | ⟨rfl, malformed⟩
        · exact (plain decodes).elim
        · exact ⟨rfl, messages, snapSync, rfl, malformed⟩
      | _ => exact (plain explained).elim

/-- The values of tables whose delayed entries read back. -/
theorem Persisted.wellFormed {rlp : AlloyRlp} (lawful : rlp.Lawful) {tree : SledDb} {db : Db}
    (persisted : Persisted rlp tree db) (readable : ReadableDelayed db) {key value : Bytes}
    (stored : tree[key]? = some value) : WellFormed rlp key value := by
  have present : key ∈ tree := Std.ExtTreeMap.isSome_getElem?_iff_mem.mp (by rw [stored]; rfl)
  rcases persisted.owned key present with ⟨c, rfl⟩ | ⟨t, i, small, rfl⟩
  · rw [persisted.encodes.count] at stored
    obtain ⟨n, _, rfl⟩ := Option.map_eq_some_iff.mp stored
    exact .count c (lawful.u64.decode_encode_nil _)
  · rw [persisted.encodes.record t i small] at stored
    obtain ⟨v, found, rfl⟩ := Option.map_eq_some_iff.mp stored
    have fits := persisted.records t i v found
    cases t with
    | message =>
      have read := SledStreamer.decode_encode lawful fits []
      rw [List.append_nil] at read
      exact .message i read
    | blockHashInputFeed => exact .blockHash i ((BlockHashDbValue.codec_lawful lawful).decode_encode_nil _)
    | blockMetadataInputFeed => exact .blockMetadata i v
    | missingBlockMetadataInputFeed => exact .missing i
    | messageResult => exact .result i ((MessageResult.codec_lawful lawful).decode_encode_nil v)
    | legacyDelayedMessage => cases (readable.legacy i).symm.trans found
    | rlpDelayedMessage =>
      obtain ⟨acc, msg, read⟩ := readable.entries i v found
      exact .delayed i read
    | parentChainBlockNumber => cases (readable.blocks i).symm.trans found
    | sequencerBatchMeta => exact .batch i (BatchMetadata.decode_encode lawful fits)
    | delayedSequenced => exact .sequenced i (lawful.u64.decode_encode_nil _)

namespace TableNode

variable {α : Type} {f : α → NodeAnswer} {n : TableNode} {r : Error → Prop}

/-- The node behind a call reads back, and the call fails for one of some reasons. -/
abbrev Reads (r : Error → Prop) (ended : Except EngineError NodeAnswer × TableNode) : Prop :=
  ReadableDelayed ended.2.tracker.db ∧ ∀ cause, ended.1 = .error (.database cause) → r cause

theorem track_reads {x : EStateM Error InboxTracker α} (ensures : Ensures InboxTracker.Reads (fun _ => True) r x)
    (readable : ReadableDelayed n.tracker.db) : Reads r (n.track x f) := by
  have kept := ensures.keeps n.tracker readable
  have causes := ensures.cause n.tracker
  unfold track
  cases ran : x n.tracker with
  | ok a t =>
    rw [ran] at kept
    exact ⟨kept, fun cause failed => by cases failed⟩
  | error e t =>
    rw [ran] at kept
    refine ⟨kept, fun cause failed => ?_⟩
    cases failed
    exact causes e t readable ran

theorem look_reads {x : Except Error α} (readable : ReadableDelayed n.tracker.db) (causes : ∀ e, x = .error e → r e) :
    Reads r (n.look x f) := by
  refine ⟨readable, fun cause failed => ?_⟩
  cases x with
  | ok a => cases failed
  | error e =>
    cases failed
    exact causes _ rfl

/-- A result is not an entry of the tracker. -/
theorem storeResult_frame (db : Db) (msgIdx : Nat) (res : MessageResult) :
    Agree .tracker db (db.write (TransactionStreamer.storeResult msgIdx res)) := by
  refine Agree.write fun op member => ?_
  rw [List.mem_singleton.mp member]
  exact Owner.noConfusion

theorem executeNextMsg_frame [PayloadBuilder] (answers : EngineAnswers) (n : ExecNode) :
    Agree .tracker n.db (final (TransactionStreamer.executeNextMsg answers n)).db := by
  rcases executeNextMsg_cases answers n with
    ⟨msgIdx, _, _, _, _, res, _, _, _, _, done⟩ | ⟨_, _, _, _, _, _, _, _, _, _, failed⟩ | same
  · rw [done]
    exact storeResult_frame n.db msgIdx res
  · rw [failed]
  · rw [same]

theorem execute_frame {x : EStateM EngineError ExecNode α} (frame : ∀ e : ExecNode, Agree .tracker e.db (final (x e)).db) :
    Agree .tracker n.tracker.db (n.execute x f).2.tracker.db := by
  have kept := frame ⟨n.tracker.db, n.exec⟩
  unfold execute
  cases ran : x ⟨n.tracker.db, n.exec⟩ with
  | ok a e => rwa [ran] at kept
  | error e n => rwa [ran] at kept

theorem getMessage_decodes {db : Db} {i : Nat} {e : Error} (failed : TransactionStreamer.getMessage db i = .error e) :
    e.Decodes := by
  unfold TransactionStreamer.getMessage at failed
  split at failed
  · cases failed
  · cases failed
    rfl

theorem headMessageIndex_decodes {db : Db} {e : Error} (failed : RethExecEngine.headMessageIndex db = .error e) :
    e.Decodes := by
  rcases except_bind_eq_error.mp failed with missing | ⟨_, _, failed⟩
  · exact readCount_decodes missing
  · cases failed

theorem pickNextMsg_decodes {db : Db} {e : Error} (failed : TransactionStreamer.pickNextMsg db = .error e) : e.Decodes := by
  rcases except_bind_eq_error.mp failed with missing | ⟨head, _, failed⟩
  · exact headMessageIndex_decodes missing
  · dsimp only at failed
    generalize (if head = 2 ^ 64 - 1 then 0 else head + 1) = idx at failed
    split at failed
    · cases failed
    · rcases except_bind_eq_error.mp failed with missing | ⟨_, _, failed⟩
      · rcases except_bind_eq_error.mp missing with missing | ⟨_, _, failed⟩
        · exact getMessage_decodes missing
        · cases failed
      · split at failed
        · rcases except_bind_eq_error.mp failed with missing | ⟨_, _, failed⟩
          · exact getMessage_decodes missing
          · cases failed
        · cases failed

theorem parentHash_decodes {db : Db} {genesisHash : B256} {i : Nat} {e : Error}
    (failed : RethExecEngine.parentHash genesisHash db i = .error e) : e.Decodes := by
  unfold RethExecEngine.parentHash at failed
  split at failed
  · cases failed
  · split at failed
    · cases failed
    · cases failed
      rfl

theorem beginDigest_decodes {db : Db} {i : Nat} {msg : MessageWithMetadata} {engine engine' : RethExecEngine} {cause : Error}
    (failed : RethExecEngine.beginDigest db i msg engine = .error (.database cause) engine') : cause.Decodes := by
  unfold RethExecEngine.beginDigest at failed
  rw [bind_read] at failed
  split at failed
  · cases failed
  · split at failed
    · cases failed
    · rcases bind_eq_error.mp failed with missing | ⟨_, _, _, failed⟩
      · have missing := (lift_eq_error.mp missing).1
        cases found : RethExecEngine.parentHash engine.genesisHash db i with
        | ok parent =>
          rw [found] at missing
          cases missing
        | error e =>
          rw [found] at missing
          cases missing
          exact parentHash_decodes found
      · cases failed

theorem pick_reads (readable : ReadableDelayed n.tracker.db) : Reads Error.Decodes n.pick := by
  unfold pick
  split
  · exact ⟨readable, fun cause failed => by cases failed⟩
  · cases picked : TransactionStreamer.pickNextMsg n.tracker.db with
    | error e =>
      refine ⟨readable, fun cause failed => ?_⟩
      cases failed
      exact pickNextMsg_decodes picked
    | ok next =>
      cases next with
      | none => exact ⟨readable, fun cause failed => by cases failed⟩
      | some next =>
        obtain ⟨idx, msg, prefetch⟩ := next
        dsimp only
        cases began : RethExecEngine.beginDigest n.tracker.db idx msg n.exec with
        | ok d exec => exact ⟨readable, fun cause failed => by cases failed⟩
        | error e exec =>
          refine ⟨readable, fun cause failed => ?_⟩
          cases failed
          exact beginDigest_decodes began

theorem finish_frame [PayloadBuilder] (answers : EngineAnswers) (n : TableNode) :
    Agree .tracker n.tracker.db (n.finish answers).2.tracker.db := by
  unfold finish
  split
  · exact .refl _ _
  · split
    · exact storeResult_frame _ _ _
    · exact .refl _ _

/-- The calls whose errors the consensus engine decides, too. -/
def Digests : NodeCall → Prop
  | .executeNextMsg _ | .finish _ => True
  | _ => False

theorem call_reads [Externals] [PayloadBuilder] (c : NodeCall) (plain : ¬ Digests c) (readable : ReadableDelayed n.tracker.db) :
    Reads c.Explains (call c n) := by
  cases c with
  | initializeTracker => exact track_reads InboxTracker.initializeTracker_reads readable
  | addDelayedMessages messages snapSync => exact track_reads (InboxTracker.addDelayedMessages_reads _ _) readable
  | addSequencerBatches batches => exact track_reads (InboxTracker.addSequencerBatches_reads _) readable
  | addSequencerBatchesAndStream batches => exact track_reads (InboxTracker.addSequencerBatchesAndStream_reads _) readable
  | reorgDelayedTo count => exact track_reads (InboxTracker.reorgDelayedTo_reads _) readable
  | reorgBatchesToDb count => exact track_reads (InboxTracker.reorgBatchesToDb_reads _) readable
  | getBatchMetadata seqnum => exact track_reads (InboxTracker.getBatchMetadata_reads _) readable
  | getBatchCount => exact track_reads InboxTracker.getBatchCount_reads readable
  | findInboxBatchContainingMessage pos =>
    exact track_reads (InboxTracker.findInboxBatchContainingMessage_reads _) readable
  | addMessagesAndEndBatchImpl first confirmed messages tracked =>
    have ensures := TransactionStreamer.addMessagesAndEndBatchImpl_ensures first confirmed messages tracked
    exact track_reads (InboxTracker.onStreamer_reads ensures) readable
  | reorgAtAndEndBatch first =>
    have ensures := TransactionStreamer.addMessagesAndReorg_ensures first [] none
    exact track_reads (InboxTracker.onStreamer_reads ensures) readable
  | getDelayedAcc seqnum => exact look_reads readable fun _ => readable.getDelayedAcc_decodes
  | getDelayedMessage seqnum => exact look_reads readable fun _ => readable.getDelayedMessage_decodes
  | getMessage index => exact look_reads readable fun _ => getMessage_decodes
  | headMessageIndex => exact look_reads readable fun _ => headMessageIndex_decodes
  | resultAtMessageIndex _ | restart _ => exact ⟨readable, fun cause failed => by cases failed⟩
  | pick => exact pick_reads readable
  | executeNextMsg answers | finish answers => exact absurd trivial plain

theorem digest_reads [Externals] [PayloadBuilder] {c : NodeCall} (digests : Digests c) (readable : ReadableDelayed n.tracker.db) :
    ReadableDelayed (call c n).2.tracker.db := by
  cases c with
  | executeNextMsg answers => exact readable.of_agree (execute_frame (executeNextMsg_frame answers))
  | finish answers => exact readable.of_agree (finish_frame answers n)
  | _ => exact digests.elim

end TableNode

namespace SledStreamer
variable {rlp : AlloyRlp} {tree : SledDb} {db : Db} {e : ExecError}

theorem fromStorage_decodes {α : Type} {x : Except (Stop StorageError) α} {y : Except Error α}
    (agrees : Agrees Eq StorageError.Is x y) (decodes : ∀ cause, y = .error cause → cause.Decodes)
    (failed : fromStorage x = .error (.error e)) : e.isUndecodable = false := by
  cases agrees with
  | ok => cases failed
  | panic => cases failed
  | error cause =>
    subst cause
    cases failed
    exact decodes _ rfl

theorem fromStorage_eq_ok {α : Type} {x : Except (Stop StorageError) α} {a : α} (read : fromStorage x = .ok a) :
    x = .ok a := by
  cases x with
  | ok b =>
    cases read
    rfl
  | error stop => cases read

theorem digestMessage_decodes [PayloadBuilder] (lawful : rlp.Lawful) {answers : EngineAnswers}
    (persisted : Persisted rlp tree db) {i : Nat} (small : i < 2 ^ 64) {msg : MessageWithMetadata}
    {prefetch : Option MessageWithMetadata} {engine engine' : RethExecEngine}
    (failed : digestMessage rlp answers tree i msg prefetch engine = .error (.error e) engine') : e.isUndecodable = false := by
  rcases bind_eq_error.mp failed with began | ⟨d, engine', _, failed⟩
  · have matched := beginDigest_matches lawful persisted msg small engine
    have causes (cause : Error) (engine' : RethExecEngine) :=
      @TableNode.beginDigest_decodes db i msg engine engine' cause
    rw [began] at matched
    generalize RethExecEngine.beginDigest db i msg engine = typed at matched causes
    cases matched with
    | error same cause =>
      cases cause with
      | engine => rfl
      | storage cause => exact causes cause _ rfl
  · unfold fromEngine at failed
    split at failed
    · cases failed
    · cases failed
      rfl

theorem picked_lt (lawful : rlp.Lawful) (persisted : Persisted rlp tree db) {idx : Nat} {msg : MessageWithMetadata}
    {prefetch : Option MessageWithMetadata} (picked : pickNextMsg rlp tree = .ok (some (idx, msg, prefetch))) :
    idx < 2 ^ 64 := by
  have agrees := pickNextMsg_agrees lawful persisted
  rw [picked] at agrees
  cases typed : TransactionStreamer.pickNextMsg db with
  | error cause =>
    rw [typed] at agrees
    cases agrees
  | ok next =>
    rw [typed] at agrees
    cases agrees with
    | ok same => exact pickNextMsg_lt persisted (typed.trans (congrArg _ same.symm))

/-- An execution step decodes what it reads; any other failure is the consensus engine's. -/
theorem executeNextMsg_decodes [PayloadBuilder] (lawful : rlp.Lawful) {answers : EngineAnswers} {n n' : SledExecNode}
    (persisted : Persisted rlp n.db db) (failed : executeNextMsg rlp answers n = .error (.error e) n') :
    e.isUndecodable = false := by
  unfold executeNextMsg at failed
  rw [bind_read, getHeadMessageIndex_eq lawful persisted] at failed
  rcases bind_eq_error.mp failed with missing | ⟨head, _, read, failed⟩
  · refine fromStorage_decodes (agrees_onBytes _) (fun cause none => ?_) (lift_eq_error.mp missing).1
    rcases except_bind_eq_error.mp none with missing | ⟨_, _, failed⟩
    · exact readCount_decodes missing
    · cases failed
  obtain ⟨-, rfl⟩ := lift_eq_ok.mp read
  rcases bind_eq_error.mp failed with missing | ⟨next, _, read, failed⟩
  · refine fromStorage_decodes (pickNextMsg_agrees lawful persisted) (fun _ => ?_) (lift_eq_error.mp missing).1
    exact TableNode.pickNextMsg_decodes
  obtain ⟨picked, rfl⟩ := lift_eq_ok.mp read
  cases next with
  | none => cases failed
  | some next =>
    obtain ⟨idx, msg, prefetch⟩ := next
    rcases bind_eq_error.mp failed with digest | ⟨res, m, _, failed⟩
    · obtain ⟨exec, done, _⟩ := zoom_eq_error.mp digest
      exact digestMessage_decodes lawful persisted (picked_lt lawful persisted (fromStorage_eq_ok picked)) done
    · cases added : add64 idx 1 with
      | ok next =>
        rw [bind_update, added] at failed
        cases failed
      | error p =>
        rw [bind_update, added] at failed
        cases failed

end SledStreamer

section Runs
variable [Externals] [PayloadBuilder] {rlp : AlloyRlp} {calls : List NodeCall}
  {answers : List (Except ExecError NodeAnswer)} {n : ByteNode}

/-- A run on the bytes of an empty database, in which nothing panics, is the run on empty tables. -/
theorem byte_run_matches (lawful : rlp.Lawful) (exec : RethExecEngine) (fits : ∀ c ∈ calls, NodeCall.Fits c)
    (ran : run (ByteNode.call rlp) calls (.new .empty exec) = .ok (answers, n)) :
    PersistedNode rlp n (runs TableNode.call calls (.new Store.empty exec)).2 ∧
      List.Forall₂ SameAnswer answers (runs TableNode.call calls (.new Store.empty exec)).1 := by
  have start : PersistedNode rlp (.new .empty exec) (.new Store.empty exec) := .new (.empty rlp) exec
  exact start.run lawful fits ran

theorem ByteNode.digest_decodes (lawful : rlp.Lawful) {c : NodeCall} {s s' : ByteNode} {db : Db} {e : ExecError}
    (persisted : Persisted rlp s.tracker.db db) (digests : TableNode.Digests c)
    (failed : ByteNode.call rlp c s = .ok (.error e, s')) : e.isUndecodable = false := by
  cases c with
  | executeNextMsg answers =>
    change s.execute (SledStreamer.executeNextMsg rlp answers) .executed = _ at failed
    unfold ByteNode.execute at failed
    cases done : SledStreamer.executeNextMsg rlp answers ⟨s.tracker.db, s.exec⟩ with
    | ok more n =>
      rw [done] at failed
      cases failed
    | error stop n =>
      rw [done] at failed
      cases stop with
      | panic p => cases failed
      | error cause =>
        cases failed
        exact SledStreamer.executeNextMsg_decodes lawful (n := ⟨s.tracker.db, s.exec⟩) persisted done
  | finish answers =>
    have ended := Except.ok.inj failed
    unfold ByteNode.finish at ended
    split at ended
    · cases ended
    · split at ended
      · cases ended
      · cases ended
        rfl
  | _ => exact digests.elim

/-- A node on tables that read back. -/
def ReadableNode (rlp : AlloyRlp) (s : ByteNode) : Prop :=
  ∃ t, PersistedNode rlp s t ∧ ReadableDelayed t.tracker.db

theorem ReadableNode.call (lawful : rlp.Lawful) {c : NodeCall} {s s' : ByteNode} {a : Except ExecError NodeAnswer}
    (fits : c.Fits) (node : ReadableNode rlp s) (ran : ByteNode.call rlp c s = .ok (a, s')) :
    ReadableNode rlp s' ∧ c.Decodes a := by
  obtain ⟨t, same, readable⟩ := node
  obtain ⟨related, answer⟩ := same.call lawful fits a s' ran
  by_cases digests : TableNode.Digests c
  · refine ⟨⟨_, related, TableNode.digest_reads digests readable⟩, ?_⟩
    rintro e rfl undecodable
    have decodes := ByteNode.digest_decodes lawful same.tracker.db digests ran
    exact absurd (decodes.symm.trans undecodable) Bool.false_ne_true
  · obtain ⟨kept, explains⟩ := TableNode.call_reads c digests readable
    exact ⟨⟨_, related, kept⟩, NodeCall.Explains.decodes answer explains⟩

end Runs

section Samples
open Codecs RlpFormat
attribute [local instance] sampleBuilder

/-- A delayed message, one that is too short, a confirmed message and its execution, in front of a
reorg. -/
def sampleCalls : List NodeCall :=
  [.initializeTracker, .addDelayedMessages [(0, .zero, List.replicate 113 0)] none, .addDelayedMessages [(0, .zero, [])] none,
    .addMessagesAndEndBatchImpl 0 true [sampleMessage 3] none, .pick, .finish .allValid, .getDelayedMessage 0,
    .reorgDelayedTo 0, .getDelayedMessage 0]

theorem sampleCalls_fit : ∀ c ∈ sampleCalls, NodeCall.Fits c := by
  have zero : 0 < 2 ^ 64 := Nat.two_pow_pos 64
  have input (bytes : Bytes) : DelayedInput.Fits (0, .zero, bytes) := zero
  have message : SledStreamer.Valid (sampleMessage 3).messageWithMeta := zero
  simp only [sampleCalls, List.forall_mem_cons]
  exact ⟨trivial, List.forall_mem_singleton.mpr (input _), List.forall_mem_singleton.mpr (input _),
    ⟨zero, List.forall_mem_singleton.mpr message⟩, trivial, trivial, zero, zero, zero, List.forall_mem_nil _⟩

theorem sampleCalls_run : ∃ answers n, run (ByteNode.call alloyRlp) sampleCalls (.new .empty (.newWithHandles .zero 0)) =
    .ok (answers, n) := by
  have ended : (run (ByteNode.call alloyRlp) sampleCalls
      (.new .empty (.newWithHandles .zero 0))).toOption.isSome = true := by decide +kernel
  cases ran : run (ByteNode.call alloyRlp) sampleCalls (.new .empty (.newWithHandles .zero 0)) with
  | error p =>
    rw [ran] at ended
    contradiction
  | ok r => exact ⟨r.1, r.2, rfl⟩

theorem sample_run_matches : ∃ answers n,
    run (ByteNode.call alloyRlp) sampleCalls (.new .empty (.newWithHandles .zero 0)) = .ok (answers, n) ∧
      PersistedNode alloyRlp n (runs TableNode.call sampleCalls (.new Store.empty (.newWithHandles .zero 0))).2 ∧
        List.Forall₂ SameAnswer answers
          (runs TableNode.call sampleCalls (.new Store.empty (.newWithHandles .zero 0))).1 := by
  obtain ⟨answers, n, ran⟩ := sampleCalls_run
  exact ⟨answers, n, ran, byte_run_matches alloyRlp_lawful _ sampleCalls_fit ran⟩

end Samples
end NitroRs
