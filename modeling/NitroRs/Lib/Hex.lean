import Mathlib.Tactic.Common
import Mathlib.Tactic.IntervalCases
import Mathlib.Tactic.Ring

/-! Hexadecimal texts, as lists of characters. -/
namespace Hex

abbrev Text := List Char

def digit (c : Char) : Option Nat :=
  if '0' ≤ c ∧ c ≤ '9' then some (c.toNat - '0'.toNat)
  else if 'a' ≤ c ∧ c ≤ 'f' then some (c.toNat - 'a'.toNat + 10)
  else if 'A' ≤ c ∧ c ≤ 'F' then some (c.toNat - 'A'.toNat + 10)
  else none

/-- Two digits a byte, upper or lower case. -/
def decode : Text → Option (List UInt8)
  | [] => some []
  | [_] => none
  | high :: low :: rest =>
    match digit high, digit low, decode rest with
    | some high, some low, some bytes => some (.ofNat (high * 16 + low) :: bytes)
    | _, _, _ => none

/-- `trim_start_matches("0x")`. -/
def trimPrefix : Text → Text
  | '0' :: 'x' :: rest => trimPrefix rest
  | text => text

/-- `from_str` of a byte string of fixed width, with one `0x` or without. -/
def fixedFromStr (width : Nat) (text : Text) : Option { bytes : List UInt8 // bytes.length = width } :=
  let digits := match text with
    | '0' :: 'x' :: rest => rest
    | text => text
  match decode digits with
  | none => none
  | some bytes => if fits : bytes.length = width then some ⟨bytes, fits⟩ else none

/-- The value of a row of digits, while it stays below a bound. -/
def radix16 (bound : Nat) : Nat → Text → Option Nat
  | acc, [] => some acc
  | acc, c :: rest =>
    match digit c with
    | none => none
    | some d => if acc * 16 + d < bound then radix16 bound (acc * 16 + d) rest else none

/-- `u64::from_str_radix(.., 16)`. -/
def u64FromStrRadix16 : Text → Option Nat
  | [] => none
  | ['+'] => none
  | '+' :: rest => radix16 (2 ^ 64) 0 rest
  | text => radix16 (2 ^ 64) 0 text

def digitChar (d : Nat) : Char := Char.ofNat (if d < 10 then '0'.toNat + d else 'a'.toNat + (d - 10))

/-- The `{:#x}` of a byte string. -/
def display (bytes : List UInt8) : Text :=
  '0' :: 'x' :: bytes.flatMap fun b => [digitChar (b.toNat / 16), digitChar (b.toNat % 16)]

/-- Two digits a byte, lower case. -/
def encode (bytes : List UInt8) : Text :=
  bytes.flatMap fun b => [digitChar (b.toNat / 16), digitChar (b.toNat % 16)]

theorem digit_digitChar {d : Nat} (small : d < 16) : digit (digitChar d) = some d := by
  interval_cases d <;> rfl

theorem decode_encode (bytes : List UInt8) : decode (encode bytes) = some bytes := by
  induction bytes with
  | nil => rfl
  | cons b bytes ih =>
    have byte := b.toNat_lt
    have whole : UInt8.ofNat (b.toNat / 16 * 16 + b.toNat % 16) = b := by
      rw [Nat.div_add_mod', UInt8.ofNat_toNat]
    rw [encode, List.flatMap_cons]
    change decode (digitChar (b.toNat / 16) :: digitChar (b.toNat % 16) :: encode bytes) = _
    rw [decode, digit_digitChar (by omega), digit_digitChar (Nat.mod_lt _ (by decide)), ih]
    simp only [whole]

def eqIgnoreAsciiCase (a b : Text) : Bool := a.map Char.toLower == b.map Char.toLower

end Hex
