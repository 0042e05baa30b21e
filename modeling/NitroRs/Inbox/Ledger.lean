import NitroRs.Inbox.BatchTables

/-! The inbox as a ledger: delayed messages and batch metadata in order. The
tracker's tables represent a ledger, and its reads answer from it. -/
namespace NitroRs
open KeyValue Outcome

structure DelayedMessage where
  bytes : Bytes
  msg : L1IncomingMessage
  parsed : parseIncomingL1MessageLegacy bytes = .ok msg

/-- Batches read more and more of the delayed messages, and none that are missing. -/
structure Ledger where
  delayed : List DelayedMessage
  batches : List BatchMetadata
  sorted : Ascending.Sorted BatchMetadata.delayedMessageCount batches
  bounded : ∀ m ∈ batches, m.delayedMessageCount ≤ delayed.length

theorem splitEntry_append (label : EntryLabel) (acc : B256) (d : DelayedMessage) :
    InboxTracker.splitEntry label (acc.val ++ d.bytes) = .ok (acc, d.msg) := by
  have length : acc.val.length = 32 := acc.property
  have enough : 32 ≤ (acc.val ++ d.bytes).length := by simp [length]
  have rest : (acc.val ++ d.bytes).drop 32 = d.bytes := List.drop_left' length
  have front : (acc.val ++ d.bytes).take 32 = acc.val := List.take_left' length
  simp only [InboxTracker.splitEntry, dif_pos enough, rest, d.parsed, front]
  rfl

namespace Ledger

def empty : Ledger := ⟨[], [], .nil, fun _ member => nomatch member⟩

/-- The batches that read at most `count` delayed messages. -/
def batchesUpTo (l : Ledger) (count : Nat) : List BatchMetadata :=
  Ascending.upTo BatchMetadata.delayedMessageCount count l.batches

theorem batchesUpTo_sorted (l : Ledger) (count : Nat) :
    Ascending.Sorted BatchMetadata.delayedMessageCount (l.batchesUpTo count) :=
  l.sorted.sublist (List.takeWhile_sublist _)

theorem le_of_mem_batchesUpTo {l : Ledger} {count : Nat} {m : BatchMetadata}
    (member : m ∈ l.batchesUpTo count) :
    m.delayedMessageCount ≤ count ∧ m.delayedMessageCount ≤ l.delayed.length :=
  ⟨by simpa using List.mem_takeWhile_imp member, l.bounded m ((List.takeWhile_sublist _).mem member)⟩

/-- Replace the delayed messages from a position on; later readers are dropped. -/
def addDelayed (l : Ledger) (pos : Nat) (messages : List DelayedMessage) : Ledger where
  delayed := l.delayed.take pos ++ messages
  batches := l.batchesUpTo (keptUpTo pos)
  sorted := l.batchesUpTo_sorted _
  bounded m member := by
    have bound := le_of_mem_batchesUpTo member
    have kept := keptUpTo_le pos
    simp only [List.length_append, List.length_take]
    omega

theorem length_addDelayed {l : Ledger} {pos : Nat} {messages : List DelayedMessage} (inside : pos ≤ l.delayed.length) :
    (l.addDelayed pos messages).delayed.length = pos + messages.length := by
  simp [addDelayed, inside]

theorem addDelayed_batches {l : Ledger} {pos : Nat} (word : pos + 1 < 2 ^ 64) (messages : List DelayedMessage) :
    (l.addDelayed pos messages).batches = l.batchesUpTo pos := by
  have kept : (l.addDelayed pos messages).batches = l.batchesUpTo (keptUpTo pos) := rfl
  rw [kept, keptUpTo_of_lt word]

def reorgDelayed (l : Ledger) (count : Nat) : Ledger := l.addDelayed count []

/-- Replace the batches from a position on. -/
def addBatches (l : Ledger) (pos : Nat) (metas : List BatchMetadata)
    (sorted : Ascending.Sorted BatchMetadata.delayedMessageCount (l.batches.take pos ++ metas))
    (bounded : ∀ m ∈ metas, m.delayedMessageCount ≤ l.delayed.length) : Ledger where
  delayed := l.delayed
  batches := l.batches.take pos ++ metas
  sorted := sorted
  bounded m member := by
    rcases List.mem_append.mp member with old | new
    · exact l.bounded m (List.mem_of_mem_take old)
    · exact bounded m new

def reorgBatches (l : Ledger) (count : Nat) : Ledger :=
  l.addBatches count []
    (by rw [List.append_nil]; exact l.sorted.sublist (List.take_sublist _ _))
    (fun _ member => nomatch member)

end Ledger

variable [Externals]

def accumulate (acc : B256) (d : DelayedMessage) : B256 :=
  hashAfter acc (delayedMessageBodyHash d.msg).val

/-- The accumulator after a list of delayed messages. -/
def accumulator (delayed : List DelayedMessage) : B256 := delayed.foldl accumulate .zero

/-- The stored entry of message `i`. -/
def Ledger.entry (l : Ledger) (i : Nat) : Option Bytes :=
  (l.delayed[i]?).map fun d => (accumulator (l.delayed.take i)).val ++ d.bytes

/-- A tracker whose tables hold a ledger, with a delayed count that may be another one. -/
structure RepresentsWith (n : Nat) (t : InboxTracker) (l : Ledger) : Prop where
  delayedCount : t.db.count .delayedMessageCount = some n
  batchCount : t.db.count .sequencerBatchCount = some l.batches.length
  entries : ∀ i, t.db.get .rlpDelayedMessage i = l.entry i
  noLegacy : ∀ i, t.db.get .legacyDelayedMessage i = none
  metas : ∀ i, t.db.get .sequencerBatchMeta i = l.batches[i]?
  index : ∀ k i, t.db.get .delayedSequenced k = some i ↔
    Ascending.Rises BatchMetadata.delayedMessageCount l.batches k i
  cache : ∀ k m, t.batchMetaCache.peek k = some m → t.db.get .sequencerBatchMeta k = some m

/-- A tracker whose tables hold exactly a ledger. -/
abbrev Represents (t : InboxTracker) (l : Ledger) : Prop := RepresentsWith l.delayed.length t l

theorem accumulator_take_succ {delayed : List DelayedMessage} {i : Nat} {d : DelayedMessage}
    (here : delayed[i]? = some d) :
    accumulator (delayed.take (i + 1)) = accumulate (accumulator (delayed.take i)) d := by
  rw [List.take_add_one, here]
  simp only [accumulator, Option.toList_some, List.foldl_append, List.foldl_cons, List.foldl_nil]

/-- The accumulators need only the entries. -/
theorem getDelayedAcc_of_entries {db : Db} {l : Ledger}
    (entries : ∀ i, db.get .rlpDelayedMessage i = l.entry i)
    (noLegacy : ∀ i, db.get .legacyDelayedMessage i = none) (i : Nat) :
    InboxTracker.getDelayedAcc db i =
      if i < l.delayed.length then .ok (accumulator (l.delayed.take (i + 1)))
      else .error (.noDelayedAccumulator i) := by
  simp only [InboxTracker.getDelayedAcc, entries, Ledger.entry]
  cases here : l.delayed[i]? with
  | none =>
    rw [if_neg (by simpa using here)]
    simp only [Option.map_none, noLegacy]
  | some d =>
    rw [if_pos (List.getElem?_eq_some_iff.mp here).1, accumulator_take_succ here]
    simp only [Option.map_some, InboxTracker.accumulatorAfter, splitEntry_append]
    rfl

namespace RepresentsWith
variable {t : InboxTracker} {l : Ledger} {n : Nat}

theorem getDelayedAcc (represents : RepresentsWith n t l) (i : Nat) :
    InboxTracker.getDelayedAcc t.db i =
      if i < l.delayed.length then .ok (accumulator (l.delayed.take (i + 1)))
      else .error (.noDelayedAccumulator i) :=
  getDelayedAcc_of_entries represents.entries represents.noLegacy i

theorem metadataAt (represents : RepresentsWith n t l) (i : Nat) : t.metadataAt i = l.batches[i]? := by
  rw [← represents.metas i, InboxTracker.metadataAt]
  cases hit : t.batchMetaCache.peek i with
  | none => rfl
  | some m => rw [represents.cache i m hit, Option.some_or]

/-- Only the cache may differ, as long as it stays coherent. -/
theorem of_cache (represents : RepresentsWith n t l) {cache : Lru.LruCache Nat BatchMetadata}
    (coherent : ∀ j v, cache.peek j = some v → t.metadataAt j = some v) :
    RepresentsWith n ⟨t.db, cache⟩ l :=
  { represents with
    cache := fun k m hit => by
      rw [represents.metas, ← represents.metadataAt]
      exact coherent k m hit }

theorem getBatchMetadata (represents : RepresentsWith n t l) (i : Nat) :
    (∃ m t', l.batches[i]? = some m ∧ InboxTracker.getBatchMetadata i t = .ok m t' ∧
      t'.db = t.db ∧ RepresentsWith n t' l) ∨
    (l.batches[i]? = none ∧
      InboxTracker.getBatchMetadata i t = .error (.noBatchMetadata i) t) := by
  rw [← represents.metadataAt]
  rcases InboxTracker.getBatchMetadata_cases i t with ⟨m, cache, here, read, coherent⟩ | missing
  · exact .inl ⟨m, _, here, read, rfl, represents.of_cache coherent⟩
  · exact .inr missing

theorem batchTables (represents : RepresentsWith n t l) : BatchTables t.db l.batches :=
  ⟨l.sorted, represents.batchCount, represents.metas, represents.index⟩

theorem getDelayedCount (represents : RepresentsWith n t l) :
    InboxTracker.getDelayedCount t.db = .ok n := by
  simp only [InboxTracker.getDelayedCount, Db.readCount, represents.delayedCount]

theorem getBatchCount (represents : RepresentsWith n t l) :
    InboxTracker.getBatchCount t = .ok l.batches.length t :=
  represents.batchTables.getBatchCount

end RepresentsWith
end NitroRs
