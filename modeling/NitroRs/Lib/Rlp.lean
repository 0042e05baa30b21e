import NitroRs.Lib.BigEndian
import Mathlib.Data.Nat.Log

/-! RLP byte strings: a short string is its own code or carries its length in the
prefix byte, a long one carries the length of its length. A number is the string
of its digits; a list is its items behind a header of the same kind. -/
namespace Rlp

/-- A byte string that RLP can encode. -/
abbrev Str := { s : List UInt8 // s.length < 2 ^ 64 }

/-- The bytes of a length, without leading zeros. -/
def lengthBytes (n : Nat) : List UInt8 := BigEndian.digits (Nat.log 256 n + 1) n

/-- A string that is its own code. -/
def isByte : List UInt8 → Bool
  | [b] => b < 0x80
  | _ => false

def encodeString (s : Str) : List UInt8 :=
  if isByte s.val then s.val
  else if s.val.length < 56 then .ofNat (0x80 + s.val.length) :: s.val
  else
    let length := lengthBytes s.val.length
    .ofNat (0xb7 + length.length) :: (length ++ s.val)

/-- The string at the front of a buffer, and the rest of it. -/
def decodeString : List UInt8 → Option (List UInt8 × List UInt8)
  | [] => none
  | head :: rest =>
    if head < 0x80 then some ([head], rest)
    else if head < 0xb8 then
      let n := head.toNat - 0x80
      if n ≤ rest.length then some (rest.take n, rest.drop n) else none
    else if head < 0xc0 then
      let width := head.toNat - 0xb7
      let n := BigEndian.value (rest.take width)
      let body := rest.drop width
      if width ≤ rest.length ∧ n ≤ body.length then some (body.take n, body.drop n) else none
    else none

theorem lengthBytes_length {n : Nat} (small : n < 2 ^ 64) : (lengthBytes n).length ≤ 8 := by
  rw [lengthBytes, BigEndian.digits_length]
  exact Nat.log_lt_of_lt_pow' (by decide) (by simpa using small)

theorem value_lengthBytes (n : Nat) : BigEndian.value (lengthBytes n) = n :=
  BigEndian.value_digits (Nat.lt_pow_succ_log_self (by decide) n)

theorem toNat_ofNat_of_lt {n : Nat} (small : n < 256) : (UInt8.ofNat n).toNat = n := by
  rw [UInt8.toNat_ofNat']
  exact Nat.mod_eq_of_lt small

theorem ofNat_lt_iff {n m : Nat} (left : n < 256) (right : m < 256) :
    UInt8.ofNat n < UInt8.ofNat m ↔ n < m := by
  rw [UInt8.lt_iff_toNat_lt, toNat_ofNat_of_lt left, toNat_ofNat_of_lt right]

theorem isByte_iff {bytes : List UInt8} : isByte bytes = true ↔ ∃ b, bytes = [b] ∧ b < 0x80 := by
  unfold isByte
  split
  · simp
  · rename_i other
    simp only [Bool.false_eq_true, false_iff, not_exists, not_and]
    exact fun b single _ => other b single

/-- The encoding of a string never starts like the encoding of a list. -/
theorem encodeString_head (s : Str) : ∃ head rest, encodeString s = head :: rest ∧ head < 0xc0 := by
  obtain ⟨bytes, small⟩ := s
  have width := lengthBytes_length small
  unfold encodeString
  dsimp only
  split
  · rename_i single
    obtain ⟨b, rfl, below⟩ := isByte_iff.mp single
    refine ⟨b, [], rfl, ?_⟩
    rw [UInt8.lt_iff_toNat_lt] at below ⊢
    exact Nat.lt_trans below (by decide)
  · split
    · rename_i short
      exact ⟨_, _, rfl, (ofNat_lt_iff (by omega) (by decide : 0xc0 < 256)).mpr (by omega)⟩
    · exact ⟨_, _, rfl, (ofNat_lt_iff (by omega) (by decide : 0xc0 < 256)).mpr (by omega)⟩

theorem decodeString_encodeString (s : Str) (rest : List UInt8) :
    decodeString (encodeString s ++ rest) = some (s.val, rest) := by
  obtain ⟨bytes, small⟩ := s
  have width := lengthBytes_length small
  have nonzero : 1 ≤ (lengthBytes bytes.length).length := by
    rw [lengthBytes, BigEndian.digits_length]
    exact Nat.le_add_left 1 _
  unfold encodeString
  dsimp only
  split
  · rename_i single
    obtain ⟨b, rfl, below⟩ := isByte_iff.mp single
    rw [List.singleton_append, decodeString, if_pos below]
  · split
    · rename_i short
      have number : 0x80 + bytes.length < 256 := by omega
      have length : 0x80 + bytes.length - 0x80 = bytes.length := by omega
      have notByte : ¬ UInt8.ofNat (0x80 + bytes.length) < 0x80 :=
        (ofNat_lt_iff number (by decide : 0x80 < 256)).not.mpr (by omega)
      have isShort : UInt8.ofNat (0x80 + bytes.length) < 0xb8 :=
        (ofNat_lt_iff number (by decide : 0xb8 < 256)).mpr (by omega)
      rw [List.cons_append, decodeString, if_neg notByte, if_pos isShort]
      simp only [toNat_ofNat_of_lt number, length, List.length_append, Nat.le_add_right, if_true,
        List.take_left, List.drop_left]
    · rename_i long
      have number : 0xb7 + (lengthBytes bytes.length).length < 256 := by omega
      have length : 0xb7 + (lengthBytes bytes.length).length - 0xb7 =
          (lengthBytes bytes.length).length := by omega
      have notByte : ¬ UInt8.ofNat (0xb7 + (lengthBytes bytes.length).length) < 0x80 :=
        (ofNat_lt_iff number (by decide : 0x80 < 256)).not.mpr (by omega)
      have notShort : ¬ UInt8.ofNat (0xb7 + (lengthBytes bytes.length).length) < 0xb8 :=
        (ofNat_lt_iff number (by decide : 0xb8 < 256)).not.mpr (by omega)
      have isString : UInt8.ofNat (0xb7 + (lengthBytes bytes.length).length) < 0xc0 :=
        (ofNat_lt_iff number (by decide : 0xc0 < 256)).mpr (by omega)
      rw [List.cons_append, decodeString, if_neg notByte, if_neg notShort, if_pos isString]
      simp only [toNat_ofNat_of_lt number, length, List.append_assoc, List.length_append,
        List.take_left, List.drop_left, value_lengthBytes, Nat.le_add_right, and_self, if_true]

/-- The strings in a buffer, at most `n` of them. -/
def decodeStrings : Nat → List UInt8 → List (List UInt8)
  | 0, _ => []
  | n + 1, buffer =>
    match decodeString buffer with
    | some (s, rest) => s :: decodeStrings n rest
    | none => []

theorem decodeStrings_flatMap {strings : List Str} {n : Nat} (enough : strings.length ≤ n) :
    decodeStrings n (strings.flatMap encodeString) = strings.map Subtype.val := by
  induction strings generalizing n with
  | nil => cases n <;> rfl
  | cons s strings ih =>
    obtain ⟨n, rfl⟩ : ∃ m, n = m + 1 := ⟨n - 1, by simp at enough; omega⟩
    rw [List.flatMap_cons, decodeStrings, decodeString_encodeString, List.map_cons]
    simp only [ih (Nat.le_of_succ_le_succ enough)]

theorem length_le_flatMap (strings : List Str) :
    strings.length ≤ (strings.flatMap encodeString).length := by
  induction strings with
  | nil => rfl
  | cons s strings ih =>
    obtain ⟨head, rest, encoded, _⟩ := encodeString_head s
    rw [List.flatMap_cons, encoded]
    simp only [List.length_cons, List.length_append, List.cons_append]
    omega

/-- The digits of a number without leading zeros: zero has none. -/
def numberBytes (n : Nat) : List UInt8 := if n = 0 then [] else lengthBytes n

theorem value_numberBytes (n : Nat) : BigEndian.value (numberBytes n) = n := by
  unfold numberBytes
  split
  · rename_i zero
    rw [zero]
    rfl
  · exact value_lengthBytes n

theorem numberBytes_length {n : Nat} (small : n < 2 ^ 256) : (numberBytes n).length ≤ 32 := by
  unfold numberBytes
  split
  · exact Nat.zero_le 32
  · rw [lengthBytes, BigEndian.digits_length]
    exact Nat.log_lt_of_lt_pow' (by decide) (by simpa using small)

def number (n : Nat) (small : n < 2 ^ 256) : Str :=
  ⟨numberBytes n, Nat.lt_of_le_of_lt (numberBytes_length small) (by decide)⟩

def decodeNumber (buffer : List UInt8) : Option (Nat × List UInt8) :=
  match decodeString buffer with
  | some (digits, rest) => some (BigEndian.value digits, rest)
  | none => none

theorem decodeNumber_encodeString {n : Nat} (small : n < 2 ^ 256) (rest : List UInt8) :
    decodeNumber (encodeString (number n small) ++ rest) = some (n, rest) := by
  simp only [decodeNumber, decodeString_encodeString, number, value_numberBytes]

/-- A string that must have the given width. -/
def decodeFixed (width : Nat) (buffer : List UInt8) :
    Option ({ s : List UInt8 // s.length = width } × List UInt8) :=
  match decodeString buffer with
  | some (s, rest) => if fits : s.length = width then some (⟨s, fits⟩, rest) else none
  | none => none

theorem decodeFixed_encodeString {width : Nat} (s : { s : List UInt8 // s.length = width })
    (small : s.val.length < 2 ^ 64) (rest : List UInt8) :
    decodeFixed width (encodeString ⟨s.val, small⟩ ++ rest) = some (s, rest) := by
  simp only [decodeFixed, decodeString_encodeString, dif_pos s.property]

/-- The header of a list with `n` bytes of payload. The format ends at `2 ^ 64`;
longer payloads are counted in unary behind a byte that starts no list. -/
def encodeListHeader (n : Nat) : List UInt8 :=
  if n < 56 then [.ofNat (0xc0 + n)]
  else if n < 2 ^ 64 then .ofNat (0xf7 + (lengthBytes n).length) :: lengthBytes n
  else 0 :: (List.replicate n 1 ++ [0])

def decodeUnary : List UInt8 → Option (Nat × List UInt8)
  | [] => none
  | b :: rest =>
    if b = 0 then some (0, rest)
    else match decodeUnary rest with
      | some (n, rest) => some (n + 1, rest)
      | none => none

theorem decodeUnary_replicate (n : Nat) (rest : List UInt8) :
    decodeUnary (List.replicate n 1 ++ 0 :: rest) = some (n, rest) := by
  induction n with
  | zero => rfl
  | succ n ih =>
    rw [List.replicate_succ, List.cons_append, decodeUnary, if_neg (by decide), ih]

/-- The payload length of the list at the front of a buffer that holds the whole payload. -/
def decodeListHeader (buffer : List UInt8) : Option (Nat × List UInt8) :=
  let header := match buffer with
    | [] => none
    | head :: rest =>
      if head = 0 then decodeUnary rest
      else if head < 0xc0 then none
      else if head < 0xf8 then some (head.toNat - 0xc0, rest)
      else
        let width := head.toNat - 0xf7
        if width ≤ rest.length then some (BigEndian.value (rest.take width), rest.drop width) else none
  match header with
  | some (n, rest) => if n ≤ rest.length then some (n, rest) else none
  | none => none

theorem decodeListHeader_encode {n : Nat} {rest : List UInt8} (fits : n ≤ rest.length) :
    decodeListHeader (encodeListHeader n ++ rest) = some (n, rest) := by
  have apart {head : Nat} (number : head < 256) (high : 0xc0 ≤ head) : UInt8.ofNat head ≠ 0 := by
    intro zero
    have same := congrArg UInt8.toNat zero
    rw [toNat_ofNat_of_lt number] at same
    simp at same
    omega
  unfold encodeListHeader
  split
  · rename_i short
    have number : 0xc0 + n < 256 := by omega
    have isList : ¬ UInt8.ofNat (0xc0 + n) < 0xc0 :=
      (ofNat_lt_iff number (by decide : 0xc0 < 256)).not.mpr (by omega)
    have isShort : UInt8.ofNat (0xc0 + n) < 0xf8 :=
      (ofNat_lt_iff number (by decide : 0xf8 < 256)).mpr (by omega)
    have length : 0xc0 + n - 0xc0 = n := by omega
    simp only [List.singleton_append, decodeListHeader, if_neg (apart number (Nat.le_add_right _ _)),
      if_neg isList, if_pos isShort, toNat_ofNat_of_lt number, length, if_pos fits]
  · rename_i long
    split
    · rename_i small
      have width := lengthBytes_length small
      have number : 0xf7 + (lengthBytes n).length < 256 := by omega
      have nonzero : 1 ≤ (lengthBytes n).length := by
        rw [lengthBytes, BigEndian.digits_length]
        exact Nat.le_add_left 1 _
      have isList : ¬ UInt8.ofNat (0xf7 + (lengthBytes n).length) < 0xc0 :=
        (ofNat_lt_iff number (by decide : 0xc0 < 256)).not.mpr (by omega)
      have isLong : ¬ UInt8.ofNat (0xf7 + (lengthBytes n).length) < 0xf8 :=
        (ofNat_lt_iff number (by decide : 0xf8 < 256)).not.mpr (by omega)
      have length : 0xf7 + (lengthBytes n).length - 0xf7 = (lengthBytes n).length := by omega
      simp only [List.cons_append, decodeListHeader, if_neg (apart number (by omega)), if_neg isList,
        if_neg isLong, toNat_ofNat_of_lt number, length, List.length_append, Nat.le_add_right, if_true,
        List.take_left, List.drop_left, value_lengthBytes, if_pos fits]
    · simp only [List.cons_append, List.append_assoc, List.nil_append, decodeListHeader, if_true,
        decodeUnary_replicate, if_pos fits]

/-- The number strings of bytes, as a list. -/
def byteStrings (s : List UInt8) : List Str :=
  s.map fun b => number b.toNat (Nat.lt_trans b.toNat_lt (by decide))

def encodeBytes (s : List UInt8) : List UInt8 :=
  let payload := (byteStrings s).flatMap encodeString
  encodeListHeader payload.length ++ payload

def decodeBytes (buffer : List UInt8) : Option (List UInt8 × List UInt8) :=
  match decodeListHeader buffer with
  | some (n, rest) =>
    some ((decodeStrings n (rest.take n)).map fun digits => .ofNat (BigEndian.value digits), rest.drop n)
  | none => none

theorem decodeBytes_encodeBytes (s rest : List UInt8) :
    decodeBytes (encodeBytes s ++ rest) = some (s, rest) := by
  have fits : ((byteStrings s).flatMap encodeString).length ≤
      ((byteStrings s).flatMap encodeString ++ rest).length := by simp
  have bytes : ((byteStrings s).map Subtype.val).map (fun digits => UInt8.ofNat (BigEndian.value digits)) = s := by
    simp only [byteStrings, List.map_map]
    conv_rhs => rw [← List.map_id s]
    apply List.map_congr_left
    intro b _
    simp only [Function.comp_apply, number, value_numberBytes, UInt8.ofNat_toNat, id_eq]
  rw [encodeBytes, List.append_assoc, decodeBytes, decodeListHeader_encode fits]
  simp only [List.take_left, List.drop_left, decodeStrings_flatMap (length_le_flatMap _), bytes]

end Rlp
