import NitroRs.Primitives.L1

/-! The genesis storage of ArbOS. A slot is the hash of a storage key and the first 31 bytes of
an offset, with the last byte of the offset as it is. -/
namespace NitroRs.Genesis

def versionOffset : Nat := 0
def upgradeVersionOffset : Nat := 1
def upgradeTimestampOffset : Nat := 2
def networkFeeAccountOffset : Nat := 3
def chainIdOffset : Nat := 4
def genesisBlockNumOffset : Nat := 5
def infraFeeAccountOffset : Nat := 6
def brotliLevelOffset : Nat := 7
def nativeTokenEnabledFromTimeOffset : Nat := 8

def l1PricingSubspace : UInt8 := 0
def l2PricingSubspace : UInt8 := 1
def chainConfigSubspace : UInt8 := 7

def l2SpeedLimitPerSecondOffset : Nat := 0
def l2PerBlockGasLimitOffset : Nat := 1
def l2BaseFeeWeiOffset : Nat := 2
def l2MinBaseFeeWeiOffset : Nat := 3
def l2GasBacklogOffset : Nat := 4
def l2PricingInertiaOffset : Nat := 5
def l2BacklogToleranceOffset : Nat := 6

def pricePerUnitOffset : Nat := 7

def initialSpeedLimitPerSecondV0 : Nat := 1000000
def initialPerBlockGasLimitV0 : Nat := 20 * 1000000
def initialMinBaseFeeWei : Nat := 100000000
def initialBaseFeeWei : Nat := initialMinBaseFeeWei
def initialPricingInertia : Nat := 102
def initialBacklogTolerance : Nat := 10

/-- A `BTreeMap` from slots to words. -/
abbrev Storage := B256 → Option B256

def Storage.empty : Storage := fun _ => none

def Storage.insert (storage : Storage) (slot word : B256) : Storage :=
  fun s => if s = slot then some word else storage s

def beU256 (val : U256) : B256 := ⟨U256.toBeBytes val, toBeBytes_length val⟩

/-- A number of 64 bits as a word. -/
def beU64 (val : Nat) : B256 := beU256 (.ofNat 256 val)

section
variable [Externals]

def mapSlot (storageKey : Bytes) (key : B256) : B256 :=
  ⟨(keccak256 (storageKey ++ key.val.take 31)).val.take 31 ++ key.val.drop 31, by
    have hashed := (keccak256 (storageKey ++ key.val.take 31)).property
    have width := key.property
    rw [List.length_append, List.length_take, List.length_drop, hashed, width]
    rfl⟩

def subspace (storageKey : Bytes) (id : UInt8) : Bytes := (keccak256 (storageKey ++ [id])).val

/-- The loop of `write_bytes` and what follows it: the last word is filled up on the left. -/
def writeWords (storageKey bytes : Bytes) (offset i : Nat) (storage : Storage) : Storage :=
  if full : i + 32 ≤ bytes.length then
    let word : B256 := ⟨(bytes.drop i).take 32, by rw [List.length_take, List.length_drop]; omega⟩
    writeWords storageKey bytes (offset + 1) (i + 32) (storage.insert (mapSlot storageKey (beU64 offset)) word)
  else if i < bytes.length then
    let rem := bytes.drop i
    let last : B256 := ⟨List.replicate (32 - rem.length) 0 ++ rem, by
      rw [List.length_append, List.length_replicate, List.length_drop]; omega⟩
    storage.insert (mapSlot storageKey (beU64 offset)) last
  else storage
  termination_by bytes.length - i

def writeBytes (storage : Storage) (storageKey bytes : Bytes) : Storage :=
  let storage := storage.insert (mapSlot storageKey (beU64 0)) (beU64 bytes.length)
  writeWords storageKey bytes 1 0 storage

def buildMinimalArbosStorage (chainId : UInt64) (chainConfigBytes : Option Bytes) (initialL1BaseFee : U256) :
    Storage :=
  let rootKey : Bytes := []
  let storage := Storage.empty
  let storage := storage.insert (mapSlot rootKey (beU64 versionOffset)) (beU64 1)
  let storage := storage.insert (mapSlot rootKey (beU64 upgradeVersionOffset)) (beU64 0)
  let storage := storage.insert (mapSlot rootKey (beU64 upgradeTimestampOffset)) (beU64 0)
  let storage := storage.insert (mapSlot rootKey (beU64 networkFeeAccountOffset)) .zero
  let storage := storage.insert (mapSlot rootKey (beU64 chainIdOffset)) (beU256 (.ofNat 256 chainId.toNat))
  let storage := storage.insert (mapSlot rootKey (beU64 genesisBlockNumOffset)) (beU64 0)
  let storage := storage.insert (mapSlot rootKey (beU64 infraFeeAccountOffset)) .zero
  let storage := storage.insert (mapSlot rootKey (beU64 brotliLevelOffset)) (beU64 0)
  let storage := storage.insert (mapSlot rootKey (beU64 nativeTokenEnabledFromTimeOffset)) (beU64 0)
  let storage := match chainConfigBytes with
    | some cfg => writeBytes storage (subspace rootKey chainConfigSubspace) cfg
    | none => storage
  let l2Space := subspace rootKey l2PricingSubspace
  let storage := storage.insert (mapSlot l2Space (beU64 l2SpeedLimitPerSecondOffset))
    (beU64 initialSpeedLimitPerSecondV0)
  let storage := storage.insert (mapSlot l2Space (beU64 l2PerBlockGasLimitOffset)) (beU64 initialPerBlockGasLimitV0)
  let storage := storage.insert (mapSlot l2Space (beU64 l2BaseFeeWeiOffset)) (beU256 (.ofNat 256 initialBaseFeeWei))
  let storage := storage.insert (mapSlot l2Space (beU64 l2MinBaseFeeWeiOffset))
    (beU256 (.ofNat 256 initialMinBaseFeeWei))
  let storage := storage.insert (mapSlot l2Space (beU64 l2GasBacklogOffset)) (beU64 0)
  let storage := storage.insert (mapSlot l2Space (beU64 l2PricingInertiaOffset)) (beU64 initialPricingInertia)
  let storage := storage.insert (mapSlot l2Space (beU64 l2BacklogToleranceOffset)) (beU64 initialBacklogTolerance)
  let l1Space := subspace rootKey l1PricingSubspace
  storage.insert (mapSlot l1Space (beU64 pricePerUnitOffset)) (beU256 initialL1BaseFee)

end
end NitroRs.Genesis
