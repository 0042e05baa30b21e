import NitroRs.Db.Encoding
import NitroRs.Streamer.DuplicateCount
import NitroRs.Streamer.StreamerSpec

/-! The batches that the streamer writes to the bytes of the database: the encoded ones of the
tables. -/
namespace NitroRs.SledStreamer
open Checked KeyValue Outcome TransactionStreamer

section Source
variable (rlp : AlloyRlp)

def setMessageCount (batch : SledBatch) (count : Nat) : SledBatch :=
  batch.put messageCountKey (rlp.u64.encode (.ofNat count))

def writeMessages (trackBlockMetadataFrom : Option Nat) :
    Nat → List MessageWithMetadataAndBlockInfo → SledBatch → SledBatch
  | idx, [], batch => setMessageCount rlp batch idx
  | idx, m :: ms, batch =>
    writeMessages trackBlockMetadataFrom (idx + 1) ms (writeMessage rlp idx m batch trackBlockMetadataFrom)

/-- The batch of `add_messages_and_reorg` before the new messages. -/
def reorgBatch (db : SledDb) (first : Nat) : Except String SledBatch := do
  let start := uint64ToKey (.ofNat first)
  let batch ← deleteStartingAt db .new messageResultPrefix start
  let batch ← deleteStartingAt db batch blockHashInputFeedPrefix start
  let batch ← deleteStartingAt db batch blockMetadataInputFeedPrefix start
  let batch ← deleteStartingAt db batch missingBlockMetadataInputFeedPrefix start
  let batch ← deleteStartingAt db batch messagePrefix start
  return setMessageCount rlp batch first

/-- The streamer's tables as it writes them. -/
structure EncodesMessages (enc : Encoding) : Prop where
  message : ∀ m, enc.record .message m = m.encode rlp
  blockHash : ∀ h, enc.record .blockHashInputFeed h = (BlockHashDbValue.codec rlp).encode ⟨h⟩
  blockMetadata : ∀ metadata, enc.record .blockMetadataInputFeed metadata = metadata
  missing : enc.record .missingBlockMetadataInputFeed () = []
  count : ∀ n, enc.count n = rlp.u64.encode (.ofNat n)

end Source

variable {rlp : AlloyRlp} {enc : Encoding} {tree : SledDb} {db : Db} {first : Nat}

theorem writeMessage_ops (written : EncodesMessages rlp enc) (idx : Nat) (m : MessageWithMetadataAndBlockInfo)
    (batch : SledBatch) (track : Option Nat) : writeMessage rlp idx m batch track =
      ⟨batch.ops ++ (TransactionStreamer.writeMessage idx m track).map enc.op⟩ := by
  unfold writeMessage TransactionStreamer.writeMessage
  split
  · split
    · split <;> simp [*, SledBatch.put, Encoding.op, Table.recordKey, messageKey, Table.keyPrefix, written.message,
        written.blockHash, written.blockMetadata, written.missing]
    · simp [*, SledBatch.put, Encoding.op, Table.recordKey, messageKey, Table.keyPrefix, written.message,
        written.blockHash]
  · simp [SledBatch.put, Encoding.op, Table.recordKey, messageKey, Table.keyPrefix, written.message,
      written.blockHash]

theorem writeMessages_ops (written : EncodesMessages rlp enc) (track : Option Nat) (idx : Nat)
    (ms : List MessageWithMetadataAndBlockInfo) (batch : SledBatch) : writeMessages rlp track idx ms batch =
      ⟨batch.ops ++ (TransactionStreamer.writeMessages track idx ms).map enc.op⟩ := by
  induction ms generalizing idx batch with
  | nil =>
    simp only [writeMessages, TransactionStreamer.writeMessages, setMessageCount, SledBatch.put, List.map_singleton,
      Encoding.op, Counter.key, written.count]
  | cons m ms ih =>
    rw [writeMessages, TransactionStreamer.writeMessages, ih, writeMessage_ops written, List.map_append,
      List.append_assoc]

/-- The batch of a reorg is the one of the tables. -/
theorem reorgBatch_ops (written : EncodesMessages rlp enc) (encodes : Encodes enc tree db) (small : first < 2 ^ 64) :
    reorgBatch rlp tree first = .ok ⟨(cutOps db first).map enc.op⟩ := by
  have results := encodes.deleteStartingAt .new .messageResult small
  have hashes (batch : SledBatch) := encodes.deleteStartingAt batch .blockHashInputFeed small
  have metadata (batch : SledBatch) := encodes.deleteStartingAt batch .blockMetadataInputFeed small
  have missing (batch : SledBatch) := encodes.deleteStartingAt batch .missingBlockMetadataInputFeed small
  have entries (batch : SledBatch) := encodes.deleteStartingAt batch .message small
  simp only [Table.keyPrefix] at results hashes metadata missing entries
  simp only [reorgBatch, results, hashes, metadata, missing, entries, bind, Except.bind]
  simp [cutOps, setMessageCount, SledBatch.put, SledBatch.new, Encoding.op, Counter.key, written.count, pure,
    Except.pure]

theorem isDuplicate_iff {old next : MessageWithMetadata} : isDuplicate old next = true ↔ Same old next := by
  rw [same_iff, isDuplicate, Bool.or_eq_true, Bool.and_eq_true, Bool.or_eq_true, decide_eq_true_eq, decide_eq_true_eq]

end NitroRs.SledStreamer
