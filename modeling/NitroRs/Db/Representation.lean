import NitroRs.Db.Encoding
import NitroRs.Lib.Simulation
import NitroRs.Primitives.Records

/-! The tables in the bytes that the components write. A represented table holds only numbers of
64 bits, so that every reader gets back what was written. -/
namespace NitroRs
open Checked KeyValue Lexicographic Outcome Simulation

/-- How a call on the bytes of the database fails. -/
inductive StorageError where
  | node (cause : Error)
  | rlp (cause : RlpError)
  /-- an error of the database, from an iterator -/
  | iterator (text : String)
  /-- "attempted to reorg to future batch count: {cause}" -/
  | reorgToFutureBatch (cause : StorageError)

/-- The error of the model that has no bytes. -/
def StorageError.Is (e : StorageError) (f : Error) : Prop := e = .node f

/-- The outcome of the model that has no bytes. -/
def onBytes {α : Type} (x : Except Error α) : Except (Stop StorageError) α := ofError (x.mapError .node)

@[simp] theorem onBytes_ok {α : Type} (a : α) : onBytes (.ok a) = .ok a := rfl

@[simp] theorem onBytes_error {α : Type} (e : Error) : (onBytes (.error e) : Except _ α) = .error (.error (.node e)) := rfl

theorem agrees_onBytes {α : Type} (x : Except Error α) : Agrees Eq StorageError.Is (onBytes x) x := by
  cases x with
  | ok a => exact .ok rfl
  | error e => exact .error rfl

section Source
variable (rlp : AlloyRlp)

/-- The entry that `add_sequencer_batches` puts together. -/
def BatchMetadata.encode (self : BatchMetadata) : Bytes :=
  rlp.b256.encode self.accumulator ++ rlp.u64.encode (.ofNat self.messageCount) ++
    rlp.u64.encode (.ofNat self.delayedMessageCount) ++ rlp.u64.encode (.ofNat self.parentChainBlock)

/-- The decoding of `get_batch_metadata`, which does not look behind the last number. -/
def BatchMetadata.decode (data : Bytes) : Except RlpError BatchMetadata := do
  let (accumulator, bytes) ← rlp.b256.decode data
  let (messageCount, bytes) ← rlp.u64.decode bytes
  let (delayedMessageCount, bytes) ← rlp.u64.decode bytes
  let (parentChainBlock, _) ← rlp.u64.decode bytes
  return ⟨accumulator, messageCount.toNat, delayedMessageCount.toNat, parentChainBlock.toNat⟩

/-- The `?` behind a decoder, whose slices may be out of range. -/
def decoded {α : Type} (read : Except RlpError α) : Except (Stop StorageError) α :=
  match read with
  | .ok a => .ok a
  | .error .slicePanic => .error (.panic .outOfRange)
  | .error e => .error (.error (.rlp e))

/-- The `?` behind the deletion of a range. -/
def iterated {α : Type} (x : Except String α) : Except (Stop StorageError) α := ofError (x.mapError .iterator)

def SledDb.read (db : SledDb) (key : Bytes) : Except (Stop StorageError) Bytes := onBytes (db.get key)

/-- A number behind a key; what follows it is not looked at. -/
def SledDb.readU64 (db : SledDb) (key : Bytes) : Except (Stop StorageError) Nat := do
  let data ← db.read key
  let (n, _) ← decoded (rlp.u64.decode data)
  return n.toNat

/-- Every table and counter, as its owner writes it. -/
def storageEncoding : Encoding where
  record
    | .message, m => MessageWithMetadata.encode rlp m
    | .blockHashInputFeed, h => (BlockHashDbValue.codec rlp).encode ⟨h⟩
    | .blockMetadataInputFeed, metadata => metadata
    | .missingBlockMetadataInputFeed, _ => []
    | .messageResult, result => MessageResult.encode rlp result
    | .legacyDelayedMessage, data => data
    | .rlpDelayedMessage, data => data
    | .parentChainBlockNumber, data => data
    | .sequencerBatchMeta, metadata => BatchMetadata.encode rlp metadata
    | .delayedSequenced, n => rlp.u64.encode (.ofNat n)
  count n := rlp.u64.encode (.ofNat n)

end Source

/-- The numbers of a batch's metadata are `u64`s. -/
structure BatchMetadata.Fits (metadata : BatchMetadata) : Prop where
  messageCount : metadata.messageCount < 2 ^ 64
  delayedMessageCount : metadata.delayedMessageCount < 2 ^ 64
  parentChainBlock : metadata.parentChainBlock < 2 ^ 64

def Table.Fits : (t : Table) → t.Record → Prop
  | .message, m => m.delayedMessagesRead < 2 ^ 64
  | .sequencerBatchMeta, metadata => BatchMetadata.Fits metadata
  | .delayedSequenced, n => n < 2 ^ 64
  | .blockHashInputFeed, _ | .blockMetadataInputFeed, _ | .missingBlockMetadataInputFeed, _
  | .messageResult, _ | .legacyDelayedMessage, _ | .rlpDelayedMessage, _ | .parentChainBlockNumber, _ => True

/-- An operation on numbers of 64 bits. -/
def DbOp.Fits : DbOp → Prop
  | .setCount _ n => n < 2 ^ 64
  | .put t i v => i < 2 ^ 64 ∧ t.Fits v
  | .del _ i => i < 2 ^ 64

/-- A tree of the tables and of nothing else, all of whose numbers have 64 bits. -/
structure Persisted (rlp : AlloyRlp) (tree : SledDb) (db : Db) : Prop where
  encodes : Encodes (storageEncoding rlp) tree db
  owned : ∀ key ∈ tree, (∃ c, key = Counter.key c) ∨ ∃ t, ∃ i < 2 ^ 64, key = Table.recordKey t i
  counts : ∀ c n, db.count c = some n → n < 2 ^ 64
  records : ∀ t i v, db.get t i = some v → Table.Fits t v

variable {rlp : AlloyRlp} {tree : SledDb} {db : Db} {t : Table} {c : Counter} {i n start : Nat}

section Readers

theorem BatchMetadata.decode_encode (lawful : rlp.Lawful) {metadata : BatchMetadata} (fits : metadata.Fits) :
    BatchMetadata.decode rlp (metadata.encode rlp) = .ok metadata := by
  obtain ⟨accumulator, messageCount, delayedMessageCount, parentChainBlock⟩ := metadata
  obtain ⟨messages, delayed, block⟩ := fits
  have narrow {n : Nat} (small : n < 2 ^ 64) : (UInt64.ofNat n).toNat = n := UInt64.toNat_ofNat_of_lt' small
  simp only [decode, encode, List.append_assoc, lawful.b256.decode_encode, lawful.u64.decode_encode,
    lawful.u64.decode_encode_nil, bind, Except.bind]
  rw [narrow messages, narrow delayed, narrow block]
  rfl

end Readers

namespace Persisted

theorem empty (rlp : AlloyRlp) : Persisted rlp .empty Store.empty where
  encodes := encodes_empty _
  owned key present := absurd present Std.ExtTreeMap.not_mem_empty
  counts c n := by
    intro present
    exact nomatch present
  records t i v := by
    rw [Store.get_empty]
    intro present
    exact nomatch present

theorem count (persisted : Persisted rlp tree db) (c : Counter) :
    tree[Counter.key c]? = (db.count c).map fun n => rlp.u64.encode (.ofNat n) :=
  persisted.encodes.count c

theorem record (persisted : Persisted rlp tree db) (t : Table) (small : i < 2 ^ 64) :
    tree[dbKey t.keyPrefix (.ofNat i)]? = (db.get t i).map ((storageEncoding rlp).record t) :=
  persisted.encodes.record t i small

/-- One operation keeps the numbers within 64 bits. -/
theorem apply (persisted : Persisted rlp tree db) {op : DbOp} (fits : op.Fits) :
    Persisted rlp (SledOp.apply tree ((storageEncoding rlp).op op)) (db.apply op) where
  encodes := by
    refine persisted.encodes.apply op ?_
    cases op with
    | setCount c n => trivial
    | put t i v => exact fits.1
    | del t i => exact fits
  owned key present := by
    cases op with
    | setCount c n =>
      rcases SledOp.mem_apply_put.mp present with rfl | old
      · exact .inl ⟨c, rfl⟩
      · exact persisted.owned key old
    | put t i v =>
      rcases SledOp.mem_apply_put.mp present with rfl | old
      · exact .inr ⟨t, i, fits.1, rfl⟩
      · exact persisted.owned key old
    | del t i => exact persisted.owned key (SledOp.mem_apply_del.mp present).2
  counts c n present := by
    cases op with
    | setCount d m =>
      rw [Store.count_apply_setCount] at present
      split at present
      · cases present
        exact fits
      · exact persisted.counts c n present
    | put t i v => exact persisted.counts c n present
    | del t i => exact persisted.counts c n present
  records u j w present := by
    cases op with
    | setCount d m => exact persisted.records u j w present
    | put t i v =>
      by_cases same : u = t
      · subst same
        rw [Store.get_apply_put] at present
        split at present
        · cases present
          exact fits.2
        · exact persisted.records u j w present
      · rw [Store.get_apply_put_of_ne _ _ _ same] at present
        exact persisted.records u j w present
    | del t i =>
      by_cases same : u = t
      · subst same
        rw [Store.get_apply_del] at present
        split at present
        · contradiction
        · exact persisted.records u j w present
      · rw [Store.get_apply_del_of_ne _ _ same] at present
        exact persisted.records u j w present

theorem write (persisted : Persisted rlp tree db) {ops : List DbOp} (fits : ∀ op ∈ ops, DbOp.Fits op) :
    Persisted rlp (SledBatch.write ⟨ops.map (storageEncoding rlp).op⟩ tree) (db.write ops) := by
  induction ops generalizing tree db with
  | nil => exact persisted
  | cons op ops ih =>
    obtain ⟨first, later⟩ := List.forall_mem_cons.mp fits
    exact ih (persisted.apply first) later

theorem readU64 (lawful : rlp.Lawful) (persisted : Persisted rlp tree db) (c : Counter) :
    tree.readU64 rlp c.key = onBytes (db.readCount c) := by
  rw [SledDb.readU64, SledDb.read, SledDb.get, persisted.count, Db.readCount]
  cases found : db.count c with
  | none => rfl
  | some n =>
    change (decoded (rlp.u64.decode _) >>= _) = _
    rw [lawful.u64.decode_encode_nil]
    exact congrArg Except.ok (UInt64.toNat_ofNat_of_lt' (persisted.counts c n found))

/-- The bytes of a record, from its key. -/
theorem read_record (persisted : Persisted rlp tree db) (t : Table) (small : i < 2 ^ 64) :
    tree.read (dbKey t.keyPrefix (.ofNat i)) =
      match db.get t i with
      | some v => .ok ((storageEncoding rlp).record t v)
      | none => onBytes (.error .notFound) := by
  rw [SledDb.read, SledDb.get, persisted.record t small]
  cases db.get t i <;> rfl

theorem has_record (persisted : Persisted rlp tree db) (t : Table) (small : i < 2 ^ 64) :
    tree.has (dbKey t.keyPrefix (.ofNat i)) = db.has t i := by
  rw [SledDb.has, ← Std.ExtTreeMap.isSome_getElem?_eq_contains, persisted.record t small, Store.has, Option.isSome_map]

theorem has_count (persisted : Persisted rlp tree db) (c : Counter) : tree.has c.key = (db.count c).isSome := by
  rw [SledDb.has, ← Std.ExtTreeMap.isSome_getElem?_eq_contains, persisted.count, Option.isSome_map]

/-- A range is queued for deletion as it is in the tables. -/
theorem deleteStartingAt (persisted : Persisted rlp tree db) (ops : List DbOp) (t : Table) (small : start < 2 ^ 64) :
    iterated (NitroRs.deleteStartingAt tree ⟨ops.map (storageEncoding rlp).op⟩ t.keyPrefix (uint64ToKey (.ofNat start))) =
      .ok ⟨(ops ++ db.deleteFrom t start).map (storageEncoding rlp).op⟩ := by
  rw [persisted.encodes.deleteStartingAt _ t small, List.map_append]
  rfl

theorem deleteFrom_fits (persisted : Persisted rlp tree db) (t : Table) (start : Nat) :
    ∀ op ∈ db.deleteFrom t start, DbOp.Fits op := by
  intro op member
  obtain ⟨entry, inside, rfl⟩ := List.mem_map.mp member
  exact persisted.encodes.inside inside

end Persisted
end NitroRs
