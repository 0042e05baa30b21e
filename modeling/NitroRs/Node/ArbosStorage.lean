import Mathlib.Data.List.Nodup
import NitroRs.Codecs
import NitroRs.Node.Genesis

/-! The writes of the genesis storage go to different slots, so each keeps its word, and the
chain config is read back from them. -/
namespace NitroRs.Genesis

structure ArbosWrite where
  storageKey : Bytes
  offset : Nat
  word : B256

/-- The words of a byte string; the last one is filled up on the left. -/
def configWord (bytes : Bytes) (k : Nat) : B256 :=
  ⟨List.replicate (32 - ((bytes.drop (32 * k)).take 32).length) 0 ++ (bytes.drop (32 * k)).take 32, by
    rw [List.length_append, List.length_replicate, List.length_take]
    omega⟩

def wordCount (bytes : Bytes) : Nat := (bytes.length + 31) / 32

def configWrites (storageKey bytes : Bytes) : List ArbosWrite :=
  ⟨storageKey, 0, beU64 bytes.length⟩ ::
    (List.range (wordCount bytes)).map fun k => ⟨storageKey, k + 1, configWord bytes k⟩

section
variable [Externals]

namespace ArbosWrite

def slot (w : ArbosWrite) : B256 := mapSlot w.storageKey (beU64 w.offset)

/-- What is hashed for a slot. -/
def page (w : ArbosWrite) : Bytes := w.storageKey ++ (beU64 w.offset).val.take 31

end ArbosWrite

def writeAll (storage : Storage) (writes : List ArbosWrite) : Storage :=
  writes.foldl (fun storage w => storage.insert w.slot w.word) storage

/-- All writes of the genesis storage, in order. -/
def arbosWrites (chainId : UInt64) (config : Bytes) (initialL1BaseFee : U256) : List ArbosWrite :=
  [⟨[], 0, beU64 1⟩, ⟨[], 1, beU64 0⟩, ⟨[], 2, beU64 0⟩, ⟨[], 3, .zero⟩,
    ⟨[], 4, beU256 (.ofNat 256 chainId.toNat)⟩, ⟨[], 5, beU64 0⟩, ⟨[], 6, .zero⟩, ⟨[], 7, beU64 0⟩,
    ⟨[], 8, beU64 0⟩] ++
  configWrites (subspace [] chainConfigSubspace) config ++
  [⟨subspace [] l2PricingSubspace, 0, beU64 initialSpeedLimitPerSecondV0⟩,
    ⟨subspace [] l2PricingSubspace, 1, beU64 initialPerBlockGasLimitV0⟩,
    ⟨subspace [] l2PricingSubspace, 2, beU256 (.ofNat 256 initialBaseFeeWei)⟩,
    ⟨subspace [] l2PricingSubspace, 3, beU256 (.ofNat 256 initialMinBaseFeeWei)⟩,
    ⟨subspace [] l2PricingSubspace, 4, beU64 0⟩,
    ⟨subspace [] l2PricingSubspace, 5, beU64 initialPricingInertia⟩,
    ⟨subspace [] l2PricingSubspace, 6, beU64 initialBacklogTolerance⟩] ++
  [⟨subspace [] l1PricingSubspace, 7, beU256 initialL1BaseFee⟩]

/-- What is hashed on the way: the ids of the subspaces, and a page for each slot. -/
def hashInputs (chainId : UInt64) (config : Bytes) (initialL1BaseFee : U256) : List Bytes :=
  [chainConfigSubspace, l2PricingSubspace, l1PricingSubspace].map (fun id => [] ++ [id]) ++
    (arbosWrites chainId config initialL1BaseFee).map ArbosWrite.page

/-- The first 31 bytes of the hash tell the inputs apart. -/
def CollisionFree (inputs : List Bytes) : Prop :=
  ∀ a ∈ inputs, ∀ b ∈ inputs, (keccak256 a).val.take 31 = (keccak256 b).val.take 31 → a = b

def readWords (storage : Storage) (storageKey : Bytes) : (left offset : Nat) → Option Bytes
  | 0, _ => some []
  | left + 1, offset => do
    let word ← storage (mapSlot storageKey (beU64 offset))
    let rest ← readWords storage storageKey left (offset + 1)
    return word.val ++ rest

/-- Read a byte string back: its length, the full words, and what the last word holds. -/
def readBytes (storage : Storage) (storageKey : Bytes) : Option Bytes := do
  let length ← storage (mapSlot storageKey (beU64 0))
  let n := BigEndian.value length.val
  let front ← readWords storage storageKey (n / 32) 1
  if n % 32 = 0 then return front
  else
    let last ← storage (mapSlot storageKey (beU64 (n / 32 + 1)))
    return front ++ last.val.drop (32 - n % 32)

section
variable {storage : Storage} {storageKey bytes : Bytes} {writes : List ArbosWrite}

@[simp] theorem writeAll_cons (w : ArbosWrite) :
    writeAll storage (w :: writes) = writeAll (storage.insert w.slot w.word) writes := rfl

omit [Externals] in
theorem configWord_of_full {k : Nat} (full : 32 * k + 32 ≤ bytes.length) :
    (configWord bytes k).val = (bytes.drop (32 * k)).take 32 := by
  have length : ((bytes.drop (32 * k)).take 32).length = 32 := by
    rw [List.length_take, List.length_drop]
    omega
  change List.replicate (32 - ((bytes.drop (32 * k)).take 32).length) 0 ++ _ = _
  rw [length, Nat.sub_self, List.replicate_zero, List.nil_append]

/-- The loop writes the words from a position on. -/
theorem writeWords_eq (left j : Nat) (count : left = wordCount bytes - j) :
    writeWords storageKey bytes (j + 1) (32 * j) storage =
      writeAll storage ((List.range' j left).map fun k => ⟨storageKey, k + 1, configWord bytes k⟩) := by
  unfold wordCount at count
  induction left generalizing j storage with
  | zero =>
    rw [writeWords, dif_neg (by omega), if_neg (by omega)]
    rfl
  | succ left ih =>
    rw [writeWords, List.range'_succ, List.map_cons]
    split
    · rename_i full
      rw [← Nat.mul_succ, ih (j + 1) (by omega)]
      have word : configWord bytes j = ⟨(bytes.drop (32 * j)).take 32, by
        rw [List.length_take, List.length_drop]; omega⟩ := Subtype.ext (configWord_of_full full)
      rw [writeAll_cons, word]
      rfl
    · rename_i part
      have last : left = 0 := by omega
      have short : (bytes.drop (32 * j)).length ≤ 32 := by
        rw [List.length_drop]
        omega
      rw [if_pos (by omega), last]
      simp only [configWord, List.take_of_length_le short]
      rfl

theorem writeBytes_eq : writeBytes storage storageKey bytes = writeAll storage (configWrites storageKey bytes) := by
  rw [configWrites, List.range_eq_range', writeAll_cons]
  exact writeWords_eq _ 0 rfl

theorem buildMinimalArbosStorage_eq (chainId : UInt64) (config : Bytes) (initialL1BaseFee : U256) :
    buildMinimalArbosStorage chainId (some config) initialL1BaseFee =
      writeAll .empty (arbosWrites chainId config initialL1BaseFee) := by
  unfold buildMinimalArbosStorage
  simp only [writeBytes_eq, arbosWrites]
  simp only [writeAll, List.foldl_append, List.foldl_cons, List.foldl_nil]
  rfl

theorem writeAll_of_not_mem {s : B256} (untouched : s ∉ writes.map ArbosWrite.slot) :
    writeAll storage writes s = storage s := by
  induction writes generalizing storage with
  | nil => rfl
  | cons w writes ih =>
    rw [List.map_cons, List.mem_cons, not_or] at untouched
    rw [writeAll_cons]
    exact (ih untouched.2).trans (if_neg untouched.1)

/-- With different slots every write stays. -/
theorem writeAll_of_mem {w : ArbosWrite} (distinct : (writes.map ArbosWrite.slot).Nodup) (member : w ∈ writes) :
    writeAll storage writes w.slot = some w.word := by
  induction writes generalizing storage with
  | nil => exact nomatch member
  | cons first writes ih =>
    obtain ⟨fresh, distinct⟩ := List.nodup_cons.mp distinct
    rw [writeAll_cons]
    rcases List.mem_cons.mp member with rfl | later
    · exact (writeAll_of_not_mem fresh).trans (if_pos rfl)
    · exact ih distinct later

end

omit [Externals] in
theorem beU64_value {n : Nat} (small : n < 2 ^ 64) : BigEndian.value (beU64 n).val = n := by
  have wide : n < 2 ^ 256 := Nat.lt_of_lt_of_le small (Nat.pow_le_pow_right (by decide) (by decide))
  have digits : n < 256 ^ 32 := calc
    n < 2 ^ 256 := wide
    _ = 256 ^ 32 := by decide
  change BigEndian.value (BigEndian.digits 32 (BitVec.ofNat 256 n).toNat) = n
  rw [BitVec.toNat_ofNat, Nat.mod_eq_of_lt wide, BigEndian.value_digits digits]

section
variable {inputs : List Bytes} {chainId : UInt64} {config : Bytes} {initialL1BaseFee : U256} {storage : Storage}

/-- Slots of hashed pages are equal only for equal storage keys and offsets. -/
theorem slot_injective (free : CollisionFree inputs) {w w' : ArbosWrite} (hashed : w.page ∈ inputs)
    (hashed' : w'.page ∈ inputs) (small : w.offset < 2 ^ 64) (small' : w'.offset < 2 ^ 64)
    (same : w.slot = w'.slot) : w.storageKey = w'.storageKey ∧ w.offset = w'.offset := by
  have front {w : ArbosWrite} : ((keccak256 w.page).val.take 31).length = 31 := by
    rw [List.length_take, (keccak256 w.page).property]
    rfl
  have bytes : (keccak256 w.page).val.take 31 ++ (beU64 w.offset).val.drop 31 =
      (keccak256 w'.page).val.take 31 ++ (beU64 w'.offset).val.drop 31 := congrArg Subtype.val same
  obtain ⟨hash, last⟩ := List.append_inj bytes (front.trans front.symm)
  have page : w.storageKey ++ (beU64 w.offset).val.take 31 = w'.storageKey ++ (beU64 w'.offset).val.take 31 :=
    free _ hashed _ hashed' hash
  have width {n : Nat} : ((beU64 n).val.take 31).length = 31 := by
    rw [List.length_take, (beU64 n).property]
    rfl
  obtain ⟨key, high⟩ := List.append_inj' page (width.trans width.symm)
  have word : (beU64 w.offset).val = (beU64 w'.offset).val := by
    rw [← List.take_append_drop 31 (beU64 w.offset).val, high, last, List.take_append_drop]
  have value := congrArg BigEndian.value word
  rw [beU64_value small, beU64_value small'] at value
  exact ⟨key, value⟩

/-- The subspaces have keys of their own. -/
theorem subspace_injective (free : CollisionFree inputs) {id id' : UInt8} (hashed : [] ++ [id] ∈ inputs)
    (hashed' : [] ++ [id'] ∈ inputs) (same : subspace [] id = subspace [] id') : id = id' := by
  have input := free _ hashed _ hashed' (congrArg (List.take 31) same)
  simpa using input

theorem subspace_ne_nil (id : UInt8) : subspace [] id ≠ [] := by
  intro empty
  have width := (keccak256 ([] ++ [id])).property
  change (subspace [] id).length = 32 at width
  rw [empty] at width
  contradiction

/-- The storage keys and offsets of the writes. -/
theorem arbosWrites_keys : (arbosWrites chainId config initialL1BaseFee).map (fun w => (w.storageKey, w.offset)) =
    (List.range 9).map (([] : Bytes), ·) ++
      (List.range (wordCount config + 1)).map (subspace [] chainConfigSubspace, ·) ++
      (List.range 7).map (subspace [] l2PricingSubspace, ·) ++ [(subspace [] l1PricingSubspace, 7)] := by
  have config : (configWrites (subspace [] chainConfigSubspace) config).map (fun w => (w.storageKey, w.offset)) =
      (List.range (wordCount config + 1)).map (subspace [] chainConfigSubspace, ·) := by
    rw [configWrites, List.range_succ_eq_map]
    simp only [List.map_cons, List.map_map]
    rfl
  simp only [arbosWrites, List.map_append, config]
  rfl

theorem arbosWrites_keys_nodup (free : CollisionFree (hashInputs chainId config initialL1BaseFee)) :
    ((arbosWrites chainId config initialL1BaseFee).map fun w => (w.storageKey, w.offset)).Nodup := by
  have hashed {id : UInt8} (listed : id ∈ [chainConfigSubspace, l2PricingSubspace, l1PricingSubspace]) :
      [] ++ [id] ∈ hashInputs chainId config initialL1BaseFee :=
    List.mem_append_left _ (List.mem_map_of_mem listed)
  have apart {id id' : UInt8} (listed : id ∈ [chainConfigSubspace, l2PricingSubspace, l1PricingSubspace])
      (listed' : id' ∈ [chainConfigSubspace, l2PricingSubspace, l1PricingSubspace]) (different : id ≠ id') :
      subspace [] id ≠ subspace [] id' :=
    fun same => different (subspace_injective free (hashed listed) (hashed listed') same)
  have group (key : Bytes) (n : Nat) : ((List.range n).map (key, ·)).Nodup :=
    List.Nodup.map (fun i j same => congrArg Prod.snd same) List.nodup_range
  have disjoint {key key' : Bytes} (different : key ≠ key') (offsets offsets' : List Nat) :
      (offsets.map (key, ·)).Disjoint (offsets'.map (key', ·)) := by
    rintro _ left right
    obtain ⟨i, _, rfl⟩ := List.mem_map.mp left
    obtain ⟨j, _, same⟩ := List.mem_map.mp right
    exact different (congrArg Prod.fst same).symm
  rw [arbosWrites_keys]
  refine List.Nodup.append (List.Nodup.append (List.Nodup.append (group _ _) (group _ _) ?_) (group _ _) ?_)
    (List.nodup_singleton _) ?_
  · exact disjoint (subspace_ne_nil _).symm _ _
  · exact List.disjoint_append_left.mpr ⟨disjoint (subspace_ne_nil _).symm _ _,
      disjoint (apart (by decide) (by decide) (by decide)) _ _⟩
  · refine List.disjoint_append_left.mpr ⟨List.disjoint_append_left.mpr ⟨?_, ?_⟩, ?_⟩
    · exact disjoint (subspace_ne_nil _).symm _ [7]
    · exact disjoint (apart (by decide) (by decide) (by decide)) _ [7]
    · exact disjoint (apart (by decide) (by decide) (by decide)) _ [7]

theorem arbosWrites_offset (short : config.length < 2 ^ 64) {w : ArbosWrite}
    (member : w ∈ arbosWrites chainId config initialL1BaseFee) : w.offset < 2 ^ 64 := by
  have key := List.mem_map_of_mem (f := fun w => (w.storageKey, w.offset)) member
  rw [arbosWrites_keys] at key
  simp only [List.mem_append, List.mem_map, List.mem_range, List.mem_singleton, Prod.mk.injEq] at key
  unfold wordCount at key
  rcases key with ((⟨n, small, _, rfl⟩ | ⟨n, small, _, rfl⟩) | ⟨n, small, _, rfl⟩) | ⟨_, seven⟩ <;> omega

theorem arbosWrites_slots_nodup (short : config.length < 2 ^ 64)
    (free : CollisionFree (hashInputs chainId config initialL1BaseFee)) :
    ((arbosWrites chainId config initialL1BaseFee).map ArbosWrite.slot).Nodup := by
  have hashed {w : ArbosWrite} (member : w ∈ arbosWrites chainId config initialL1BaseFee) :
      w.page ∈ hashInputs chainId config initialL1BaseFee :=
    List.mem_append_right _ (List.mem_map_of_mem member)
  have keys := List.pairwise_map.mp (arbosWrites_keys_nodup free)
  refine List.pairwise_map.mpr (keys.imp_of_mem fun {w w'} member member' different same => different ?_)
  obtain ⟨key, offset⟩ := slot_injective free (hashed member) (hashed member') (arbosWrites_offset short member)
    (arbosWrites_offset short member') same
  exact Prod.ext key offset

/-- Full words, read one after the other. -/
theorem readWords_eq {storageKey : Bytes}
    (stored : ∀ k < wordCount config, storage (mapSlot storageKey (beU64 (k + 1))) = some (configWord config k))
    (left j : Nat) (full : 32 * (j + left) ≤ config.length) :
    readWords storage storageKey left (j + 1) = some ((config.drop (32 * j)).take (32 * left)) := by
  induction left generalizing j with
  | zero => rfl
  | succ left ih =>
    have inside : j < wordCount config := by
      unfold wordCount
      omega
    rw [readWords, stored j inside, ih (j + 1) (by omega), Nat.mul_succ 32 left, Nat.add_comm (32 * left),
      List.take_add, List.drop_drop, ← Nat.mul_succ]
    exact congrArg some (congrArg (· ++ _) (configWord_of_full (by omega)))

theorem readBytes_eq {storageKey : Bytes} (short : config.length < 2 ^ 64)
    (length : storage (mapSlot storageKey (beU64 0)) = some (beU64 config.length))
    (stored : ∀ k < wordCount config, storage (mapSlot storageKey (beU64 (k + 1))) = some (configWord config k)) :
    readBytes storage storageKey = some config := by
  unfold readBytes
  simp only [length, Option.bind_eq_bind, Option.bind_some, beU64_value short]
  rw [readWords_eq stored (config.length / 32) 0 (by omega)]
  simp only [Option.bind_some, Nat.mul_zero, List.drop_zero]
  split
  · rename_i whole
    rw [List.take_of_length_le (by omega)]
    rfl
  · rename_i part
    have inside : config.length / 32 < wordCount config := by
      unfold wordCount
      omega
    have rem : ((config.drop (32 * (config.length / 32))).take 32) = config.drop (32 * (config.length / 32)) :=
      List.take_of_length_le (by rw [List.length_drop]; omega)
    have size : (config.drop (32 * (config.length / 32))).length = config.length % 32 := by
      rw [List.length_drop]
      omega
    have last : (configWord config (config.length / 32)).val.drop (32 - config.length % 32) =
        config.drop (32 * (config.length / 32)) := by
      change (List.replicate (32 - ((config.drop _).take 32).length) 0 ++ (config.drop _).take 32).drop _ = _
      rw [rem, size]
      exact List.drop_left' List.length_replicate
    rw [stored _ inside, Option.bind_some, last, List.take_append_drop]
    rfl

/-- The chain config is stored with its length and its words and is read back from them; all
slots are different, so every write of the genesis storage stays as it was made. -/
theorem chain_config_recoverable (short : config.length < 2 ^ 64)
    (free : CollisionFree (hashInputs chainId config initialL1BaseFee))
    (built : buildMinimalArbosStorage chainId (some config) initialL1BaseFee = storage) :
    storage (mapSlot (subspace [] chainConfigSubspace) (beU64 0)) = some (beU64 config.length) ∧
    (∀ k < wordCount config, storage (mapSlot (subspace [] chainConfigSubspace) (beU64 (k + 1))) =
      some (configWord config k)) ∧
    readBytes storage (subspace [] chainConfigSubspace) = some config ∧
    storage = writeAll .empty (arbosWrites chainId config initialL1BaseFee) ∧
    (∀ w ∈ arbosWrites chainId config initialL1BaseFee, storage w.slot = some w.word) ∧
    ((arbosWrites chainId config initialL1BaseFee).map ArbosWrite.slot).Nodup := by
  have all : storage = writeAll .empty (arbosWrites chainId config initialL1BaseFee) :=
    built.symm.trans (buildMinimalArbosStorage_eq ..)
  have distinct := arbosWrites_slots_nodup short free
  have kept (w : ArbosWrite) (member : w ∈ arbosWrites chainId config initialL1BaseFee) :
      storage w.slot = some w.word := by
    rw [all]
    exact writeAll_of_mem distinct member
  have configured {w : ArbosWrite} (member : w ∈ configWrites (subspace [] chainConfigSubspace) config) :
      storage w.slot = some w.word :=
    kept w (List.mem_append_left _ (List.mem_append_left _ (List.mem_append_right _ member)))
  have length : storage (mapSlot (subspace [] chainConfigSubspace) (beU64 0)) = some (beU64 config.length) :=
    configured List.mem_cons_self
  have words (k : Nat) (inside : k < wordCount config) :
      storage (mapSlot (subspace [] chainConfigSubspace) (beU64 (k + 1))) = some (configWord config k) :=
    configured (List.mem_cons_of_mem _ (List.mem_map_of_mem (List.mem_range.mpr inside)))
  exact ⟨length, words, readBytes_eq short length words, all, kept, distinct⟩

end

end

section Samples

/-- Length and sum of the bytes, in front of the last byte. -/
local instance checksum : Externals := { Codecs.codecs with
  keccak256 := fun data => ⟨BigEndian.digits 32 ((data.length * 65536 + (data.map UInt8.toNat).sum) * 256),
    BigEndian.digits_length _ _⟩ }

/-- A full word and one byte more. -/
def shortConfig : Bytes := List.replicate 33 0x7b

theorem shortConfig_read : readBytes (buildMinimalArbosStorage 412346 (some shortConfig) 7)
    (subspace [] chainConfigSubspace) = some shortConfig := by
  have short : shortConfig.length < 2 ^ 64 := by
    rw [shortConfig, List.length_replicate]
    decide
  have pages : ∀ input ∈ hashInputs 412346 shortConfig 7,
      input ∈ [[7], [1], [0]] ++ [[], subspace [] 7, subspace [] 1, subspace [] 0].map (· ++ List.replicate 31 0) := by
    decide +kernel
  have apart : CollisionFree
      ([[7], [1], [0]] ++ [[], subspace [] 7, subspace [] 1, subspace [] 0].map (· ++ List.replicate 31 0)) := by
    unfold CollisionFree
    decide +kernel
  have free : CollisionFree (hashInputs 412346 shortConfig 7) :=
    fun a hashed b hashed' => apart a (pages a hashed) b (pages b hashed')
  exact (chain_config_recoverable short free rfl).2.2.1

end Samples
end NitroRs.Genesis
