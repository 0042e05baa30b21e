import NitroRs.Lib.Ensures
import NitroRs.Lib.ExecutedLog
import NitroRs.Lib.Simulation
import NitroRs.Streamer.Chain

/-! What the streamer and its engine are for: a log of messages, a prefix of which is executed. The
calls on the tables answer like the calls on the log, and leave it stored. -/
namespace NitroRs
open KeyValue Outcome RethExecEngine Simulation TransactionStreamer

/-- The calls of the streamer's callers and of its own loop. -/
inductive LogCall where
  | addMessagesAndEndBatch (first : Nat) (messages : List MessageWithMetadataAndBlockInfo) (track : Option Nat)
  | addConfirmedMessagesAndEndBatch (first : Nat) (messages : List MessageWithMetadataAndBlockInfo) (track : Option Nat)
  | addMessagesAndReorg (first : Nat) (messages : List MessageWithMetadataAndBlockInfo) (track : Option Nat)
  | reorgAtAndEndBatch (first : Nat)
  | executeNextMsg (answers : EngineAnswers)
  | getMessageCount
  | getHeadMessageIndex
  | headMessageIndex
  | getMessageWithMetadataAndBlockInfo (index : Nat)
  | resultAtMessageIndex (index : Nat)

inductive LogAnswer where
  | done
  | executed (more : Bool)
  | number (n : Nat)
  | message (m : MessageWithMetadataAndBlockInfo)
  | result (result : Option MessageResult)

/-- Where a call cuts the log. -/
def LogCall.reorgsAt : LogCall → Option Nat
  | .addMessagesAndReorg first _ _ | .reorgAtAndEndBatch first => some first
  | _ => none

/-- A log of messages in front of an engine. -/
structure LogNode where
  log : ExecutedLog MessageWithMetadataAndBlockInfo MessageResult
  exec : RethExecEngine

/-- The part of a message that is stored: its block metadata only where it is tracked. -/
def keptAt (track : Option Nat) (idx : Nat) (m : MessageWithMetadataAndBlockInfo) : MessageWithMetadataAndBlockInfo :=
  { m with blockMetadata := if track.any (· ≤ idx) then m.blockMetadata else none }

def keptFrom (track : Option Nat) (first : Nat) (ms : List MessageWithMetadataAndBlockInfo) :
    List MessageWithMetadataAndBlockInfo :=
  ms.mapIdx fun i m => keptAt track (first + i) m

namespace LogNode

def new (exec : RethExecEngine) : LogNode := ⟨.empty, exec⟩

/-- The delayed count of the last message. -/
def lastDelayed (n : LogNode) : Nat := ((n.log.entries.getLast?).map (·.messageWithMeta.delayedMessagesRead)).getD 0

/-- Both kinds of append: nothing in the log differs from what comes behind it. -/
def append (first : Nat) (messages : List MessageWithMetadataAndBlockInfo) (track : Option Nat) (n : LogNode) :
    Except Error Unit × LogNode :=
  if first ≠ n.log.entries.length then (.error (.nonContiguousAppend n.log.entries.length first), n)
  else
    match checkDelayedReads first n.lastDelayed messages with
    | .error e => (.error e, n)
    | .ok () => (.ok (), { n with log := n.log.append (keptFrom track first messages) })

def reorg (first : Nat) (messages : List MessageWithMetadataAndBlockInfo) (track : Option Nat) (n : LogNode) :
    Except Error Unit × LogNode :=
  if first = 0 then (.error .reorgInitMessage, n)
  else (.ok (), { n with log := (n.log.truncate first).append (keptFrom track first messages) })

/-- The answer to a change of the log. -/
def changed (r : Except Error Unit × LogNode) : Except EngineError LogAnswer × LogNode :=
  ((r.1.map fun _ => .done).mapError .database, r.2)

/-- The block that the next message is executed on. -/
def parent (n : LogNode) : B256 := parentOf n.exec.genesisHash n.log.results n.log.results.length

section
variable [PayloadBuilder]

/-- The engine takes a message on top of the block of the one before it, and moves its clock. -/
def beginDigest (n : LogNode) (msg : MessageWithMetadata) : EStateM.Result EngineError RethExecEngine Digest :=
  if n.exec.beaconEngineHandle.isNone then .error .missingBeaconHandle n.exec
  else if n.exec.payloadBuilderHandle.isNone then .error .missingBuilderHandle n.exec
  else
    let timestamp := nextTimestamp msg.message.header.timestamp n.exec.lastTimestamp
    .ok ⟨n.log.results.length, msg, n.parent, timestamp⟩ { n.exec with lastTimestamp := timestamp }

def digest (answers : EngineAnswers) (n : LogNode) (msg : MessageWithMetadata) :
    EStateM.Result EngineError RethExecEngine MessageResult :=
  match n.beginDigest msg with
  | .error e exec => .error e exec
  | .ok d exec => finishDigest answers d exec

def execute (answers : EngineAnswers) (n : LogNode) : Except EngineError LogAnswer × LogNode :=
  match n.log.next with
  | none => (.ok (.executed false), n)
  | some m =>
    match n.digest answers m.messageWithMeta with
    | .error e exec => (.error e, { n with exec })
    | .ok r exec => (.ok (.executed (1 < n.log.pending)), ⟨n.log.record r, exec⟩)

def call (c : LogCall) (n : LogNode) : Except EngineError LogAnswer × LogNode :=
  match c with
  | .addMessagesAndEndBatch first messages track => changed (append first messages track n)
  | .addConfirmedMessagesAndEndBatch first messages track => changed (append first messages track n)
  | .addMessagesAndReorg first messages track => changed (reorg first messages track n)
  | .reorgAtAndEndBatch first => changed (reorg first [] none n)
  | .executeNextMsg answers => execute answers n
  | .getMessageCount => (.ok (.number n.log.entries.length), n)
  | .getHeadMessageIndex => (.ok (.number (if n.log.entries.length = 0 then 2 ^ 64 - 1 else n.log.entries.length - 1)), n)
  | .headMessageIndex => (.ok (.number (if n.log.results.length = 0 then 2 ^ 64 - 1 else n.log.results.length - 1)), n)
  | .getMessageWithMetadataAndBlockInfo index =>
    match n.log.entries[index]? with
    | some m => (.ok (.message m), n)
    | none => (.error (.database .notFound), n)
  | .resultAtMessageIndex index => (.ok (.result n.log.results[index]?), n)

end

end LogNode

namespace ExecNode

def onDb (x : EStateM Error Db Unit) (n : ExecNode) : Except EngineError LogAnswer × ExecNode :=
  (((ending (x n.db)).map fun _ => .done).mapError .database, { n with db := final (x n.db) })

def look {α : Type} (x : Except Error α) (f : α → LogAnswer) (n : ExecNode) : Except EngineError LogAnswer × ExecNode :=
  ((x.map f).mapError .database, n)

/-- The calls of the source, on the tables. -/
def call [PayloadBuilder] (c : LogCall) (n : ExecNode) : Except EngineError LogAnswer × ExecNode :=
  match c with
  | .addMessagesAndEndBatch first messages track => onDb (addMessagesAndEndBatch first messages track) n
  | .addConfirmedMessagesAndEndBatch first messages track => onDb (addConfirmedMessagesAndEndBatch first messages track) n
  | .addMessagesAndReorg first messages track => onDb (addMessagesAndReorg first messages track) n
  | .reorgAtAndEndBatch first => onDb (reorgAtAndEndBatch first) n
  | .executeNextMsg answers =>
    match executeNextMsg answers n with
    | .ok more n => (.ok (.executed more), n)
    | .error e n => (.error e, n)
  | .getMessageCount => look (getMessageCount n.db) .number n
  | .getHeadMessageIndex => look (getHeadMessageIndex n.db) .number n
  | .headMessageIndex => look (headMessageIndex n.db) .number n
  | .getMessageWithMetadataAndBlockInfo index => look (getMessageWithMetadataAndBlockInfo n.db index) .message n
  | .resultAtMessageIndex index => (.ok (.result (n.db.get .messageResult index)), n)

/-- A reorg starts at a message of the log, or right behind the last one; the count stays a `u64`. -/
def Allowed (c : LogCall) (n : ExecNode) : Prop :=
  messageCountOrZero n.db < 2 ^ 64 ∧ ∀ first ∈ c.reorgsAt, first ≤ messageCountOrZero n.db

instance (c : LogCall) (n : ExecNode) : Decidable (Allowed c n) := inferInstanceAs (Decidable (_ ∧ _))

end ExecNode

/-- The tables hold a log, entry by entry. -/
structure StoresLog (n : ExecNode) (l : LogNode) : Prop where
  count : n.db.count .messageCount = some l.log.entries.length
  message : ∀ i, n.db.get .message i = (l.log.entries[i]?).map (·.messageWithMeta)
  blockHash : ∀ i, n.db.get .blockHashInputFeed i = (l.log.entries[i]?).map (·.blockHash)
  blockMetadata : ∀ i, n.db.get .blockMetadataInputFeed i = (l.log.entries[i]?).bind (·.blockMetadata)
  result : ∀ i, n.db.get .messageResult i = l.log.results[i]?
  exec : n.exec = l.exec

@[simp] theorem length_keptFrom (track : Option Nat) (first : Nat) (ms : List MessageWithMetadataAndBlockInfo) :
    (keptFrom track first ms).length = ms.length := List.length_mapIdx

theorem getElem?_keptFrom (track : Option Nat) (first i : Nat) (ms : List MessageWithMetadataAndBlockInfo) :
    (keptFrom track first ms)[i]? = (ms[i]?).map (keptAt track (first + i)) := List.getElem?_mapIdx

theorem executeNextMsg_picked [PayloadBuilder] {answers : EngineAnswers} {n : ExecNode} {head msgIdx : Nat} {msg : MessageWithMetadata}
    {prefetch : Option MessageWithMetadata} (count : getHeadMessageIndex n.db = .ok head)
    (picked : TransactionStreamer.pickNextMsg n.db = .ok (some (msgIdx, msg, prefetch))) :
    executeNextMsg answers n = (do
      let res ← onEngine (digestMessage answers n.db msgIdx msg prefetch)
      update fun n => { n with db := n.db.write (storeResult msgIdx res) }
      return (msgIdx + 1 ≤ head : Bool)) n := by
  unfold executeNextMsg
  rw [bind_read, count, picked]
  rfl

namespace StoresLog
variable {n : ExecNode} {l : LogNode}

theorem messageCount (stores : StoresLog n l) : messageCountOrZero n.db = l.log.entries.length := by
  rw [messageCountOrZero, stores.count, Option.getD_some]

theorem nothingPast (stores : StoresLog n l) : NothingPastCount n.db := by
  intro i past
  rw [stores.messageCount] at past
  rw [stores.message, List.getElem?_eq_none past, Option.map_none]

/-- Everything from an index of the log on is replaced by messages. -/
theorem replace (stores : StoresLog n l) {first : Nat} (inside : first ≤ l.log.entries.length)
    (ms : List MessageWithMetadataAndBlockInfo) (track : Option Nat) (db : Db)
    (count : db.count .messageCount = some (first + ms.length))
    (get : ∀ t, t.owner = .streamer → t ≠ .missingBlockMetadataInputFeed → ∀ i, db.get t i =
      if first ≤ i then (ms[i - first]?).bind (column · track i t) else n.db.get t i) :
    StoresLog { n with db } { l with log := (l.log.truncate first).append (keptFrom track first ms) } := by
  have length : (l.log.entries.take first).length = first := List.length_take_of_le inside
  have behind {i : Nat} (past : first ≤ i) : (l.log.entries.take first ++ keptFrom track first ms)[i]? =
      (ms[i - first]?).map (keptAt track i) := by
    rw [List.getElem?_append_right (length.trans_le past), length, getElem?_keptFrom, Nat.add_sub_cancel' past]
  have before {i : Nat} (low : ¬ first ≤ i) : (l.log.entries.take first ++ keptFrom track first ms)[i]? =
      l.log.entries[i]? := by
    rw [List.getElem?_append_left (by omega), List.getElem?_take_of_lt (by omega)]
  refine ⟨?_, fun i => ?_, fun i => ?_, fun i => ?_, fun i => ?_, stores.exec⟩
  · rw [ExecutedLog.entries_append, ExecutedLog.entries_truncate, List.length_append, length, length_keptFrom]
    exact count
  · rw [ExecutedLog.entries_append, ExecutedLog.entries_truncate, get .message rfl nofun]
    by_cases past : first ≤ i
    · rw [if_pos past, behind past]
      cases ms[i - first]? <;> rfl
    · rw [if_neg past, before past, stores.message]
  · rw [ExecutedLog.entries_append, ExecutedLog.entries_truncate, get .blockHashInputFeed rfl nofun]
    by_cases past : first ≤ i
    · rw [if_pos past, behind past]
      cases ms[i - first]? <;> rfl
    · rw [if_neg past, before past, stores.blockHash]
  · rw [ExecutedLog.entries_append, ExecutedLog.entries_truncate, get .blockMetadataInputFeed rfl nofun]
    by_cases past : first ≤ i
    · rw [if_pos past, behind past]
      cases ms[i - first]? <;> rfl
    · rw [if_neg past, before past, stores.blockMetadata]
  · rw [ExecutedLog.results_append, ExecutedLog.results_truncate, get .messageResult rfl nofun]
    by_cases past : first ≤ i
    · have none (m : Option MessageWithMetadataAndBlockInfo) : m.bind (column · track i .messageResult) = none := by
        cases m <;> rfl
      rw [if_pos past, none, List.getElem?_eq_none ((List.length_take_le _ _).trans past)]
    · rw [if_neg past, List.getElem?_take_of_lt (by omega), stores.result]

theorem lastDelayed (stores : StoresLog n l) :
    getPrevPrevDelayedRead n.db l.log.entries.length = l.lastDelayed := by
  rw [getPrevPrevDelayedRead, LogNode.lastDelayed, List.getLast?_eq_getElem?, stores.message]
  cases l.log.entries with
  | nil => rfl
  | cons m later =>
    rw [if_neg (by simp), Option.map_map]
    rfl

theorem absent (stores : StoresLog n l) {i : Nat} (past : l.log.entries.length ≤ i) {t : Table}
    (owned : t.owner = .streamer) (listed : t ≠ .missingBlockMetadataInputFeed) : n.db.get t i = none := by
  have nothing := List.getElem?_eq_none past
  cases t with
  | message => rw [stores.message, nothing, Option.map_none]
  | blockHashInputFeed => rw [stores.blockHash, nothing, Option.map_none]
  | blockMetadataInputFeed => rw [stores.blockMetadata, nothing, Option.bind_none]
  | missingBlockMetadataInputFeed => contradiction
  | messageResult => rw [stores.result, List.getElem?_eq_none (l.log.executed.trans past)]
  | legacyDelayedMessage | rlpDelayedMessage | parentChainBlockNumber | sequencerBatchMeta | delayedSequenced =>
    contradiction

/-- An answer is that of the log, and the tables hold the log behind it. -/
abbrev Refines (n : Except EngineError LogAnswer × ExecNode) (l : Except EngineError LogAnswer × LogNode) : Prop :=
  StoresLog n.2 l.2 ∧ n.1 = l.1

/-- The same for a change of the database. -/
abbrev Changed (n : ExecNode) (r : EStateM.Result Error Db Unit) (l : Except Error Unit × LogNode) : Prop :=
  StoresLog { n with db := final r } l.2 ∧ ending r = l.1

theorem Changed.refines {x : EStateM Error Db Unit} {r : Except Error Unit × LogNode} (changed : Changed n (x n.db) r) :
    Refines (n.onDb x) (LogNode.changed r) :=
  ⟨changed.1, by rw [ExecNode.onDb, LogNode.changed, changed.2]⟩

theorem append (stores : StoresLog n l) (first : Nat) (confirmed : Bool) (ms : List MessageWithMetadataAndBlockInfo)
    (track : Option Nat) : Changed n (addMessagesAndEndBatchImpl first confirmed ms track n.db)
      (l.append first ms track) := by
  unfold LogNode.append
  rcases append_cases stores.nothingPast first confirmed ms track with
    ⟨apart, refused⟩ | ⟨rfl, ⟨e, jump, refused⟩ | ⟨steps, accepted⟩⟩
  · rw [stores.messageCount] at apart refused
    rw [refused, if_pos apart]
    exact ⟨stores, rfl⟩
  · rw [stores.messageCount] at jump refused ⊢
    rw [stores.lastDelayed] at jump
    rw [refused, if_neg (not_not.mpr rfl), jump]
    exact ⟨stores, rfl⟩
  · rw [stores.messageCount] at steps accepted ⊢
    rw [stores.lastDelayed] at steps
    rw [accepted, if_neg (not_not.mpr rfl), steps]
    refine ⟨?_, rfl⟩
    have replaced := stores.replace le_rfl ms track
      (if ms = [] then n.db else n.db.write (writeMessages track l.log.entries.length ms)) ?_ ?_
    · rwa [ExecutedLog.truncate_of_length_le le_rfl] at replaced
    · split
      · rename_i none
        rw [none, stores.count]
        rfl
      · exact count_write_writeMessages _ _ _ _
    · intro t owned listed i
      have absent (past : l.log.entries.length ≤ i) : n.db.get t i = none := stores.absent past owned listed
      split
      · rename_i none
        subst none
        by_cases past : l.log.entries.length ≤ i
        · rw [if_pos past, absent past]
          rfl
        · rw [if_neg past]
      · rw [get_write_writeMessages_column]
        by_cases past : l.log.entries.length ≤ i
        · rw [if_pos past, if_pos past, absent past, Option.or_none]
        · rw [if_neg past, if_neg past]

theorem reorg (stores : StoresLog n l) {first : Nat} (inside : first ≤ l.log.entries.length)
    (ms : List MessageWithMetadataAndBlockInfo) (track : Option Nat) :
    Changed n (addMessagesAndReorg first ms track n.db) (l.reorg first ms track) := by
  unfold LogNode.reorg
  by_cases init : first = 0
  · subst init
    exact ⟨stores, rfl⟩
  · obtain ⟨db, done, count, get⟩ := addMessagesAndReorg_eq (Nat.pos_of_ne_zero init) ms track n.db
    rw [done, if_neg init]
    exact ⟨stores.replace inside ms track db count fun t owned _ => get t owned, rfl⟩

theorem scanResults_eq (stores : StoresLog n l) (k : Nat) : scanResults n.db (l.log.results.length + k) =
    if l.log.results.length = 0 then 2 ^ 64 - 1 else l.log.results.length - 1 := by
  have has (i : Nat) : n.db.has .messageResult i = decide (i < l.log.results.length) := by
    rw [Store.has, stores.result, Bool.eq_iff_iff, isSome_getElem?, decide_eq_true_eq]
  induction k with
  | zero =>
    cases length : l.log.results.length with
    | zero => rfl
    | succ k => simp [scanResults, has, length]
  | succ k ih =>
    have beyond : ¬ l.log.results.length + k < l.log.results.length := Nat.not_lt.mpr (Nat.le_add_right _ _)
    rw [← Nat.add_assoc, scanResults, has, decide_eq_false beyond, ih]
    rfl

theorem getHeadMessageIndex (stores : StoresLog n l) : TransactionStreamer.getHeadMessageIndex n.db =
    .ok (if l.log.entries.length = 0 then 2 ^ 64 - 1 else l.log.entries.length - 1) := by
  simp only [TransactionStreamer.getHeadMessageIndex, getMessageCount, Db.readCount, stores.count]
  rfl

theorem headMessageIndex (stores : StoresLog n l) : headMessageIndex n.db =
    .ok (if l.log.results.length = 0 then 2 ^ 64 - 1 else l.log.results.length - 1) := by
  obtain ⟨k, length⟩ := Nat.exists_eq_add_of_le l.log.executed
  rw [RethExecEngine.headMessageIndex, Db.readCount, stores.count, length]
  exact congrArg Except.ok (stores.scanResults_eq k)

theorem getMessageWithMetadataAndBlockInfo (stores : StoresLog n l) {i : Nat} {m : MessageWithMetadataAndBlockInfo}
    (here : l.log.entries[i]? = some m) : getMessageWithMetadataAndBlockInfo n.db i = .ok m := by
  simp only [TransactionStreamer.getMessageWithMetadataAndBlockInfo, getMessage, blockHashAtMessageIndex,
    blockMetadataAtMessageIndex, stores.message, stores.blockHash, stores.blockMetadata, here]
  rfl

/-- The next message is the first one without a result. -/
theorem pickNextMsg (stores : StoresLog n l) (word : l.log.entries.length < 2 ^ 64) :
    (∃ m prefetch, l.log.next = some m ∧
      pickNextMsg n.db = .ok (some (l.log.results.length, m.messageWithMeta, prefetch))) ∨
    (l.log.next = none ∧ pickNextMsg n.db = .ok none) := by
  have bound := l.log.executed
  have index : (if (if l.log.results.length = 0 then 2 ^ 64 - 1 else l.log.results.length - 1) = 2 ^ 64 - 1
      then 0 else (if l.log.results.length = 0 then 2 ^ 64 - 1 else l.log.results.length - 1) + 1) =
        l.log.results.length := by
    split <;> split at * <;> omega
  simp only [TransactionStreamer.pickNextMsg, stores.headMessageIndex, bind, Except.bind, index, stores.messageCount]
  cases here : l.log.next with
  | none => exact .inr ⟨rfl, if_pos (List.getElem?_eq_none_iff.mp here)⟩
  | some m =>
    left
    have inside := ExecutedLog.lt_of_next here
    rw [if_neg (not_le.mpr inside), stores.getMessageWithMetadataAndBlockInfo here]
    by_cases more : l.log.results.length + 1 < l.log.entries.length
    · have next : getMessage n.db (l.log.results.length + 1) =
          .ok (l.log.entries[l.log.results.length + 1]).messageWithMeta := by
        simp only [getMessage, stores.message, List.getElem?_eq_getElem more]
        rfl
      exact ⟨m, _, rfl, by simp only [if_pos more, next]; rfl⟩
    · exact ⟨m, _, rfl, by simp only [if_neg more]; rfl⟩

theorem parentHash (stores : StoresLog n l) {i : Nat} (inside : i ≤ l.log.results.length) :
    parentHash n.exec.genesisHash n.db i = .ok (parentOf l.exec.genesisHash l.log.results i) := by
  rw [RethExecEngine.parentHash, stores.exec]
  cases i with
  | zero => rfl
  | succ i =>
    rw [if_neg (Nat.succ_ne_zero i), Nat.add_sub_cancel, stores.result, parentOf, List.getElem?_eq_getElem inside]
    rfl

theorem record (stores : StoresLog n l) (more : l.log.results.length < l.log.entries.length) (r : MessageResult)
    (exec : RethExecEngine) : StoresLog ⟨n.db.write (storeResult l.log.results.length r), exec⟩ ⟨l.log.record r, exec⟩ := by
  have other (t : Table) (apart : t ≠ .messageResult) (i : Nat) :
      (n.db.write (storeResult l.log.results.length r)).get t i = n.db.get t i := by
    rw [storeResult, Store.write_cons, Store.write_nil, Store.get_apply_put_of_ne _ _ _ apart]
  refine ⟨?_, fun i => ?_, fun i => ?_, fun i => ?_, fun i => ?_, rfl⟩
  · rw [ExecutedLog.entries_record]
    exact stores.count
  · rw [ExecutedLog.entries_record]
    exact (other .message (by decide) i).trans (stores.message i)
  · rw [ExecutedLog.entries_record]
    exact (other .blockHashInputFeed (by decide) i).trans (stores.blockHash i)
  · rw [ExecutedLog.entries_record]
    exact (other .blockMetadataInputFeed (by decide) i).trans (stores.blockMetadata i)
  · rw [ExecutedLog.results_record more, storeResult, Store.write_cons, Store.write_nil, Store.get_apply_put,
      stores.result]
    by_cases here : l.log.results.length = i
    · subst here
      rw [if_pos rfl, List.getElem?_concat_length]
    · rw [if_neg here]
      by_cases inside : i < l.log.results.length
      · rw [List.getElem?_append_left inside]
      · rw [List.getElem?_eq_none (by omega), List.getElem?_eq_none (by simp; omega)]

theorem look {α : Type} (stores : StoresLog n l) (a : α) (f : α → LogAnswer) {x : Except Error α} (ok : x = .ok a) :
    Refines (n.look x f) (.ok (f a), l) := by
  subst ok
  exact ⟨stores, rfl⟩

section
variable [PayloadBuilder]

omit [PayloadBuilder] in
theorem beginDigest (stores : StoresLog n l) (msg : MessageWithMetadata) :
    RethExecEngine.beginDigest n.db l.log.results.length msg n.exec = l.beginDigest msg := by
  rw [RethExecEngine.beginDigest, bind_read, LogNode.beginDigest, stores.parentHash le_rfl, stores.exec]
  by_cases beacon : l.exec.beaconEngineHandle.isNone
  · rw [if_pos beacon, if_pos beacon]
    rfl
  · by_cases builder : l.exec.payloadBuilderHandle.isNone
    · rw [if_neg beacon, if_neg beacon, if_pos builder, if_pos builder]
      rfl
    · rw [if_neg beacon, if_neg beacon, if_neg builder, if_neg builder]
      rfl

theorem digest (stores : StoresLog n l) (answers : EngineAnswers) (msg : MessageWithMetadata)
    (prefetch : Option MessageWithMetadata) :
    digestMessage answers n.db l.log.results.length msg prefetch n.exec = l.digest answers msg := by
  have begun := stores.beginDigest msg
  rw [digestMessage, LogNode.digest]
  cases taken : l.beginDigest msg with
  | error e exec => exact bind_error (begun.trans taken)
  | ok d exec => exact bind_ok (begun.trans taken)

theorem execute (stores : StoresLog n l) (word : l.log.entries.length < 2 ^ 64) (answers : EngineAnswers) :
    Refines (n.call (.executeNextMsg answers)) (l.execute answers) := by
  have head := stores.getHeadMessageIndex
  have left : l.log.results.length + 1 ≤ l.log.entries.length - 1 ↔ 1 < l.log.pending := by
    rw [ExecutedLog.pending]
    omega
  change Refines (match executeNextMsg answers n with
    | .ok more n => (.ok (.executed more), n)
    | .error e n => (.error e, n)) _
  unfold LogNode.execute
  rcases stores.pickNextMsg word with ⟨m, prefetch, next, picked⟩ | ⟨none, picked⟩
  · have more := ExecutedLog.lt_of_next next
    have digested := stores.digest answers m.messageWithMeta prefetch
    rw [next]
    cases ran : l.digest answers m.messageWithMeta with
    | error e exec =>
      have failed : onEngine (digestMessage answers n.db l.log.results.length m.messageWithMeta prefetch) n =
          .error e { n with exec } := zoom_error (digested.trans ran)
      have executed : executeNextMsg answers n = .error e { n with exec } := by
        rw [executeNextMsg_picked head picked]
        exact bind_error failed
      rw [executed]
      dsimp only
      rw [ran]
      exact ⟨⟨stores.count, stores.message, stores.blockHash, stores.blockMetadata, stores.result, rfl⟩, rfl⟩
    | ok r exec =>
      have done : onEngine (digestMessage answers n.db l.log.results.length m.messageWithMeta prefetch) n =
          .ok r { n with exec } := zoom_ok (digested.trans ran)
      have executed : executeNextMsg answers n = .ok (decide (1 < l.log.pending))
          ⟨n.db.write (storeResult l.log.results.length r), exec⟩ := by
        have entries : l.log.entries.length ≠ 0 := Nat.ne_of_gt (Nat.zero_lt_of_lt more)
        rw [executeNextMsg_picked head picked, if_neg entries, ← decide_eq_decide.mpr left]
        exact bind_ok done
      rw [executed]
      dsimp only
      rw [ran]
      exact ⟨stores.record more r exec, rfl⟩
  · have executed : executeNextMsg answers n = .ok false n := by
      unfold executeNextMsg
      rw [bind_read, head, picked]
      rfl
    rw [executed, none]
    exact ⟨stores, rfl⟩

/-- Every call answers like the log, and leaves it stored. -/
theorem call (stores : StoresLog n l) {c : LogCall} (allowed : n.Allowed c) : Refines (n.call c) (l.call c) := by
  obtain ⟨word, inside⟩ := allowed
  rw [stores.messageCount] at word inside
  cases c with
  | addMessagesAndEndBatch first messages track => exact (stores.append first false messages track).refines
  | addConfirmedMessagesAndEndBatch first messages track => exact (stores.append first true messages track).refines
  | addMessagesAndReorg first messages track => exact (stores.reorg (inside first rfl) messages track).refines
  | reorgAtAndEndBatch first => exact (stores.reorg (inside first rfl) [] none).refines
  | executeNextMsg answers => exact stores.execute word answers
  | getMessageCount => exact stores.look _ _ (by rw [getMessageCount, Db.readCount, stores.count])
  | getHeadMessageIndex => exact stores.look _ _ stores.getHeadMessageIndex
  | headMessageIndex => exact stores.look _ _ stores.headMessageIndex
  | getMessageWithMetadataAndBlockInfo index =>
    cases here : l.log.entries[index]? with
    | some m =>
      rw [LogNode.call, here]
      exact stores.look m .message (stores.getMessageWithMetadataAndBlockInfo here)
    | none =>
      have missing : getMessage n.db index = .error .notFound := by
        rw [getMessage, stores.message, here, Option.map_none]
      have failed : TransactionStreamer.getMessageWithMetadataAndBlockInfo n.db index = .error .notFound := by
        rw [TransactionStreamer.getMessageWithMetadataAndBlockInfo, missing]
        rfl
      rw [ExecNode.call, failed, LogNode.call, here]
      exact ⟨stores, rfl⟩
  | resultAtMessageIndex index =>
    rw [ExecNode.call, stores.result, LogNode.call]
    exact ⟨stores, rfl⟩

end

end StoresLog

theorem stores_new {n : ExecNode} (empty : EmptyStore n.db) (zero : n.db.count .messageCount = some 0) :
    StoresLog n (.new n.exec) := by
  have nothing {t : Table} (own : t.owner = .streamer) (i : Nat) : n.db.get t i = none := empty.empty t own i
  exact ⟨zero, nothing rfl, nothing rfl, nothing rfl, nothing rfl, rfl⟩

section
variable [PayloadBuilder]

/-- Over every run from an empty store the streamer and its engine are the log. -/
theorem streamer_refines_log {start : ExecNode} (empty : EmptyStore start.db)
    (zero : start.db.count .messageCount = some 0) (calls : List LogCall)
    (allowed : AllAllowed ExecNode.Allowed ExecNode.call calls start) :
    StoresLog (runs ExecNode.call calls start).2 (runs LogNode.call calls (.new start.exec)).2 ∧
      (runs ExecNode.call calls start).1 = (runs LogNode.call calls (.new start.exec)).1 :=
  runs_refine (fun _ _ _ may stores => stores.call may) calls allowed (stores_new empty zero)

end

section Samples
attribute [local instance] sampleBuilder

/-- Two messages, the first of which is executed, and a reorg of the second one. -/
def sampleLogCalls : List LogCall :=
  [.addMessagesAndEndBatch 0 [sampleMessage 3, sampleMessage 4] none, .executeNextMsg .allValid,
    .addMessagesAndReorg 1 [sampleMessage 5] none, .headMessageIndex, .getMessageWithMetadataAndBlockInfo 1]

theorem sample_streamer_refines_log :
    StoresLog (runs ExecNode.call sampleLogCalls sampleNode).2
      (runs LogNode.call sampleLogCalls (.new sampleNode.exec)).2 ∧
    (runs ExecNode.call sampleLogCalls sampleNode).1 = (runs LogNode.call sampleLogCalls (.new sampleNode.exec)).1 :=
  streamer_refines_log sampleNode_empty rfl sampleLogCalls ⟨by decide +kernel, by decide +kernel, by decide +kernel,
    by decide +kernel, by decide +kernel, trivial⟩

end Samples
end NitroRs
