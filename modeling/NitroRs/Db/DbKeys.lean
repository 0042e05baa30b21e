import NitroRs.Lib.Lexicographic
import NitroRs.Primitives.L1

/-! The keys of the database: an index behind a letter, or the name of a counter. -/
namespace NitroRs
open Lexicographic

def byteString (text : String) : Bytes := text.toList.map fun c => UInt8.ofNat c.toNat

def messagePrefix : Bytes := byteString "m"
def blockHashInputFeedPrefix : Bytes := byteString "b"
def blockMetadataInputFeedPrefix : Bytes := byteString "t"
def missingBlockMetadataInputFeedPrefix : Bytes := byteString "x"
def messageResultPrefix : Bytes := byteString "r"
def legacyDelayedMessagePrefix : Bytes := byteString "d"
def rlpDelayedMessagePrefix : Bytes := byteString "e"
def parentChainBlockNumberPrefix : Bytes := byteString "p"
def sequencerBatchMetaPrefix : Bytes := byteString "s"
def delayedSequencedPrefix : Bytes := byteString "a"
def melStatePrefix : Bytes := byteString "l"
def melDelayedMessagePrefix : Bytes := byteString "y"

def messageCountKey : Bytes := byteString "_messageCount"
def lastPrunedMessageKey : Bytes := byteString "_lastPrunedMessageKey"
def lastPrunedDelayedMessageKey : Bytes := byteString "_lastPrunedDelayedMessageKey"
def delayedMessageCountKey : Bytes := byteString "_delayedMessageCount"
def sequencerBatchCountKey : Bytes := byteString "_sequencerBatchCount"
def dbSchemaVersionKey : Bytes := byteString "_schemaVersion"
def headMelStateBlockNumKey : Bytes := byteString "_headMelStateBlockNum"

def indexPrefixes : List Bytes :=
  [messagePrefix, blockHashInputFeedPrefix, blockMetadataInputFeedPrefix, missingBlockMetadataInputFeedPrefix,
    messageResultPrefix, legacyDelayedMessagePrefix, rlpDelayedMessagePrefix, parentChainBlockNumberPrefix,
    sequencerBatchMetaPrefix, delayedSequencedPrefix, melStatePrefix, melDelayedMessagePrefix]

def counterKeys : List Bytes :=
  [messageCountKey, lastPrunedMessageKey, lastPrunedDelayedMessageKey, delayedMessageCountKey,
    sequencerBatchCountKey, dbSchemaVersionKey, headMelStateBlockNumKey]

def uint64ToKey (x : UInt64) : Bytes := u64Be8 x

def dbKey (keyPrefix : Bytes) (index : UInt64) : Bytes := keyPrefix ++ uint64ToKey index

/-- A key that the node writes. -/
inductive KnownKey : Bytes → Prop where
  | counter {key : Bytes} (member : key ∈ counterKeys) : KnownKey key
  | indexed {p : Bytes} (member : p ∈ indexPrefixes) (i : UInt64) : KnownKey (dbKey p i)

variable {p q key : Bytes} {i j : UInt64}

theorem indexPrefixes_letters : ∀ p ∈ indexPrefixes, ∃ letter, p = [letter] ∧ letter ≠ 0x5f := by
  intro p member
  have letters : ∀ p ∈ indexPrefixes, p.length = 1 ∧ p.head? ≠ some 0x5f := by decide
  obtain ⟨single, apart⟩ := letters p member
  obtain ⟨letter, rfl⟩ := List.length_eq_one_iff.mp single
  exact ⟨letter, rfl, fun same => apart (congrArg some same)⟩

theorem counterKeys_underscore : ∀ key ∈ counterKeys, ∃ name, key = 0x5f :: name := by
  intro key member
  have names : ∀ key ∈ counterKeys, key.head? = some 0x5f := by decide
  exact List.head?_eq_some_iff.mp (names key member)

theorem prefix_dbKey_iff (member : p ∈ indexPrefixes) (member' : q ∈ indexPrefixes) :
    p <+: dbKey q i ↔ p = q := by
  obtain ⟨letter, rfl, _⟩ := indexPrefixes_letters p member
  obtain ⟨letter', rfl, _⟩ := indexPrefixes_letters q member'
  rw [dbKey, List.singleton_append, List.cons_prefix_cons, List.singleton_inj, and_iff_left List.nil_prefix]

theorem not_prefix_counter (member : p ∈ indexPrefixes) (counter : key ∈ counterKeys) : ¬ p <+: key := by
  obtain ⟨letter, rfl, apart⟩ := indexPrefixes_letters p member
  obtain ⟨name, rfl⟩ := counterKeys_underscore key counter
  exact fun has => apart (List.cons_prefix_cons.mp has).1

/-- The keys of a table are in the order of their indices. -/
theorem compare_dbKey (p : Bytes) (i j : UInt64) : compare (dbKey p i) (dbKey p j) = compare i.toNat j.toNat := by
  rw [dbKey, dbKey, compare_append_left]
  exact compare_digits i.toNat_lt j.toNat_lt

theorem dbKey_inj : dbKey p i = dbKey p j ↔ i = j := by
  constructor
  · intro same
    have order := compare_dbKey p i j
    rw [same, Std.compare_self, eq_comm, Nat.compare_eq_eq] at order
    exact UInt64.toNat_inj.mp order
  · exact congrArg _

/-- No key is in two tables. -/
theorem dbKey_apart (member : p ∈ indexPrefixes) (member' : q ∈ indexPrefixes) (different : p ≠ q) :
    dbKey p i ≠ dbKey q j := by
  intro same
  have inside : p <+: dbKey q j := same ▸ List.prefix_append p _
  exact different ((prefix_dbKey_iff member member').mp inside)

end NitroRs
