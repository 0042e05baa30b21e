import NitroRs.Primitives.Message
import NitroRs.Lib.Store

/-! The node's database: one table for each index prefix of `dbkeys.rs` and the
counters. A record stands for its encoding, which every reader decodes in full. -/
namespace NitroRs

inductive Counter where
  | messageCount
  | delayedMessageCount
  | sequencerBatchCount
  deriving DecidableEq

inductive Table where
  | message
  | blockHashInputFeed
  | blockMetadataInputFeed
  | missingBlockMetadataInputFeed
  | messageResult
  | legacyDelayedMessage
  | rlpDelayedMessage
  | parentChainBlockNumber
  | sequencerBatchMeta
  | delayedSequenced
  deriving DecidableEq

/-- What a table stores at an index. Delayed entries and block metadata are raw
bytes in the source as well. -/
@[reducible] def Table.Record : Table → Type
  | .message => MessageWithMetadata
  | .blockHashInputFeed => Option B256
  | .missingBlockMetadataInputFeed => Unit
  | .messageResult => MessageResult
  | .sequencerBatchMeta => BatchMetadata
  | .delayedSequenced => Nat
  | .blockMetadataInputFeed | .legacyDelayedMessage | .rlpDelayedMessage
  | .parentChainBlockNumber => Bytes

abbrev Db := KeyValue.Store Counter Table.Record

abbrev DbOp := KeyValue.Op Counter Table.Record

/-- `Database::get` of a counter key. -/
def Db.readCount (db : Db) (c : Counter) : Except Error Nat :=
  match db.count c with
  | some n => .ok n
  | none => .error .notFound

/-- The component that writes a table or a counter. -/
inductive Owner where
  | streamer
  | tracker
  deriving DecidableEq

def Table.owner : Table → Owner
  | .message | .blockHashInputFeed | .blockMetadataInputFeed | .missingBlockMetadataInputFeed
  | .messageResult => .streamer
  | .legacyDelayedMessage | .rlpDelayedMessage | .parentChainBlockNumber | .sequencerBatchMeta
  | .delayedSequenced => .tracker

def Counter.owner : Counter → Owner
  | .messageCount => .streamer
  | .delayedMessageCount | .sequencerBatchCount => .tracker

def placeOwner : KeyValue.Place Counter Table → Owner
  | .counter c => c.owner
  | .table t => t.owner

def DbOp.owner (op : DbOp) : Owner := placeOwner op.place

/-- Two databases with the same contents on one side. -/
structure Agree (side : Owner) (db db' : Db) : Prop where
  count : ∀ c, c.owner = side → db'.count c = db.count c
  get : ∀ t, t.owner = side → db'.get t = db.get t

namespace Agree
variable {side : Owner} {db db' db'' : Db}

@[refl] theorem refl (side : Owner) (db : Db) : Agree side db db := ⟨fun _ _ => rfl, fun _ _ => rfl⟩

@[trans] theorem trans (first : Agree side db db') (second : Agree side db' db'') : Agree side db db'' :=
  ⟨fun c owned => (second.count c owned).trans (first.count c owned),
    fun t owned => (second.get t owned).trans (first.get t owned)⟩

/-- A batch of the other side's operations keeps this side. -/
theorem write {ops : List DbOp} (foreign : ∀ op ∈ ops, DbOp.owner op ≠ side) :
    Agree side db (db.write ops) := by
  constructor
  · intro c owned
    apply db.count_write_of_untouched
    intro op member place
    apply foreign op member
    rw [DbOp.owner, place]
    exact owned
  · intro t owned
    apply db.get_write_of_untouched
    intro op member place
    apply foreign op member
    rw [DbOp.owner, place]
    exact owned

end Agree

theorem owner_of_deleteFrom {db : Db} {t : Table} {start : Nat} :
    ∀ op ∈ db.deleteFrom t start, DbOp.owner op = t.owner := by
  intro op member
  rw [DbOp.owner, db.deleteFrom_place t start op member, placeOwner]

end NitroRs
