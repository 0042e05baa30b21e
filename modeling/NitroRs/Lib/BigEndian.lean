import Mathlib.Data.List.Induction
import Mathlib.Tactic.Common
import Mathlib.Tactic.Ring

/-! Big-endian byte strings of fixed width. -/
namespace BigEndian

/-- The low `width` base-256 digits, most significant first. -/
def digits : (width n : Nat) → List UInt8
  | 0, _ => []
  | width + 1, n => digits width (n / 256) ++ [UInt8.ofNat n]

def value (bytes : List UInt8) : Nat :=
  bytes.foldl (fun acc b => acc * 256 + b.toNat) 0

@[simp] theorem digits_length (width n : Nat) : (digits width n).length = width := by
  induction width generalizing n with
  | zero => rfl
  | succ width ih => simp only [digits, List.length_append, ih, List.length_singleton]

@[simp] theorem value_nil : value [] = 0 := rfl

@[simp] theorem value_append_singleton (bytes : List UInt8) (b : UInt8) :
    value (bytes ++ [b]) = value bytes * 256 + b.toNat := by
  simp only [value, List.foldl_append, List.foldl_cons, List.foldl_nil]

/-- No digit is lost for a number that fits the width. -/
theorem value_digits {width n : Nat} (fits : n < 256 ^ width) : value (digits width n) = n := by
  induction width generalizing n with
  | zero =>
    have zero : n = 0 := by simpa using fits
    simp [digits, zero]
  | succ width ih =>
    have smaller : n / 256 < 256 ^ width := by
      apply Nat.div_lt_of_lt_mul
      simpa only [Nat.pow_succ, Nat.mul_comm] using fits
    have low : (UInt8.ofNat n).toNat = n % 256 := UInt8.toNat_ofNat' ..
    rw [digits, value_append_singleton, ih smaller, low]
    omega

theorem value_lt (bytes : List UInt8) : value bytes < 256 ^ bytes.length := by
  induction bytes using List.reverseRecOn with
  | nil => simp
  | append_singleton bytes b ih =>
    have low := b.toNat_lt
    rw [value_append_singleton, List.length_append, List.length_singleton, Nat.pow_succ]
    omega

/-- The digits of a value at its own width are the bytes it was read from. -/
theorem digits_value (bytes : List UInt8) : digits bytes.length (value bytes) = bytes := by
  induction bytes using List.reverseRecOn with
  | nil => rfl
  | append_singleton bytes b ih =>
    have low := b.toNat_lt
    have high : (value bytes * 256 + b.toNat) / 256 = value bytes := by omega
    have last : UInt8.ofNat (value bytes * 256 + b.toNat) = b := by
      rw [← UInt8.toNat_inj, UInt8.toNat_ofNat']
      omega
    rw [value_append_singleton, List.length_append, List.length_singleton, digits, high, ih, last]

theorem digits_value_of_length {bytes : List UInt8} {width : Nat} (fits : bytes.length = width) :
    digits width (value bytes) = bytes := by
  subst width
  exact digits_value bytes

end BigEndian
