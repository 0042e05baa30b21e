import NitroRs.Primitives.L1

/-! The records of the message store and of the sequencer inbox. -/
namespace NitroRs

structure MessageWithMetadata where
  message : L1IncomingMessage
  delayedMessagesRead : Nat
  deriving DecidableEq

structure MessageWithMetadataAndBlockInfo where
  messageWithMeta : MessageWithMetadata
  blockHash : Option B256
  blockMetadata : Option Bytes
  deriving DecidableEq

structure MessageResult where
  blockHash : B256
  sendRoot : B256
  deriving DecidableEq

structure BatchMetadata where
  accumulator : B256
  messageCount : Nat
  delayedMessageCount : Nat
  parentChainBlock : Nat
  deriving DecidableEq

/-- The metadata that stands before batch 0. -/
def BatchMetadata.zero : BatchMetadata := ⟨.zero, 0, 0, 0⟩

structure TimeBounds where
  minTimestamp : UInt64
  maxTimestamp : UInt64
  minBlockNumber : UInt64
  maxBlockNumber : UInt64
  deriving DecidableEq

structure SequencerInboxBatch where
  sequenceNumber : Nat
  beforeInboxAcc : B256
  afterInboxAcc : B256
  afterDelayedCount : Nat
  afterDelayedAcc : B256
  timeBounds : TimeBounds
  dataLocation : UInt8
  parentChainBlockNumber : Nat
  blockHash : B256
  txHash : B256
  serialized : Bytes
  deriving DecidableEq

end NitroRs
