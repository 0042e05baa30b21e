import Mathlib.Tactic.Common
import Mathlib.Tactic.Ring

/-! Byte strings, and the third-party functions that the node calls. The model
is parametric in these functions; a result that relies on their documented
behaviour names it as a hypothesis. -/
namespace NitroRs

abbrev Bytes := List UInt8

abbrev FixedBytes (n : Nat) := { b : Bytes // b.length = n }

abbrev B256 := FixedBytes 32

abbrev Address := FixedBytes 20

abbrev U256 := BitVec 256

def FixedBytes.zero (n : Nat) : FixedBytes n := ⟨List.replicate n 0, List.length_replicate⟩

def B256.zero : B256 := FixedBytes.zero 32

def Address.zero : Address := FixedBytes.zero 20

class Externals where
  keccak256 : Bytes → B256
  /-- `brotli::Decompressor` read to its end; `none` is an I/O error. -/
  brotliDecompress : Bytes → Option Bytes
  /-- `brotli::BrotliCompress` at quality 6. -/
  brotliCompress : Bytes → Bytes
  /-- `<Vec<u8> as alloy_rlp::Decodable>::decode`: the value and the rest of the buffer. -/
  rlpDecodeVec : Bytes → Option (Bytes × Bytes)
  /-- `alloy_rlp::encode` of a `Vec<u8>`. -/
  rlpEncodeVec : Bytes → Bytes
  /-- `<u64 as alloy_rlp::Decodable>::decode`. -/
  rlpDecodeU64 : Bytes → Option (UInt64 × Bytes)

export Externals (keccak256 brotliDecompress brotliCompress rlpDecodeVec rlpEncodeVec rlpDecodeU64)

end NitroRs
