import NitroRs.Lib.BigEndian

/-! The ABI encoding of the arguments of a call: a head of 32-byte words, one for each
argument, and behind it the byte strings that the head points at. -/
namespace Abi

inductive Arg where
  /-- a number, an address or another value of one word -/
  | word (value : Nat)
  | bytes (data : List UInt8)

def encodeWord (value : Nat) : List UInt8 := BigEndian.digits 32 value

/-- Zeros fill the last word. -/
def padded (data : List UInt8) : List UInt8 :=
  data ++ List.replicate ((32 - data.length % 32) % 32) 0

/-- What an argument adds behind the head. -/
def tail : Arg → List UInt8
  | .word _ => []
  | .bytes data => encodeWord data.length ++ padded data

/-- The head, where the next byte string starts at `offset`. -/
def head : (offset : Nat) → List Arg → List UInt8
  | _, [] => []
  | offset, .word value :: args => encodeWord value ++ head offset args
  | offset, .bytes data :: args =>
    encodeWord offset ++ head (offset + (tail (.bytes data)).length) args

def encode (args : List Arg) : List UInt8 := head (32 * args.length) args ++ args.flatMap tail

theorem encodeWord_length (value : Nat) : (encodeWord value).length = 32 := BigEndian.digits_length _ _

theorem head_length (offset : Nat) (args : List Arg) : (head offset args).length = 32 * args.length := by
  induction args generalizing offset with
  | nil => rfl
  | cons arg args ih =>
    cases arg with
    | word value =>
      rw [head, List.length_append, encodeWord_length, ih, List.length_cons]
      omega
    | bytes data =>
      rw [head, List.length_append, encodeWord_length, ih, List.length_cons]
      omega

theorem encode_length_ge (args : List Arg) : 32 * args.length ≤ (encode args).length := by
  rw [encode, List.length_append, head_length]
  exact Nat.le_add_right _ _

/-- A value in the first place is the first word. -/
theorem take_encode (value : Nat) (args : List Arg) :
    (encode (.word value :: args)).take 32 = encodeWord value := by
  rw [encode, head, List.append_assoc]
  exact List.take_left' (encodeWord_length value)

end Abi
