import Mathlib.Logic.Nontrivial.Basic
import NitroRs.Lib.Outcome

/-! Codecs that read a value off the front of a buffer, and lists of fields
behind a header that carries the length of the payload. -/

structure Codec (ε α : Type) where
  encode : α → List UInt8
  /-- The number of bytes that `encode` is said to write. -/
  length : α → Nat
  decode : List UInt8 → Except ε (α × List UInt8)

namespace Codec
variable {ε α : Type}

/-- The length is the one written, and a decoder in front of the encoding gives
the value back and leaves exactly what follows. -/
structure RoundTrips (c : Codec ε α) (x : α) : Prop where
  length_eq : c.length x = (c.encode x).length
  decode_encode : ∀ rest, c.decode (c.encode x ++ rest) = .ok (x, rest)

def Lawful (c : Codec ε α) : Prop := ∀ x, c.RoundTrips x

namespace Lawful
variable {c : Codec ε α}

theorem length_eq (lawful : c.Lawful) (x : α) : c.length x = (c.encode x).length :=
  (lawful x).length_eq

theorem decode_encode (lawful : c.Lawful) (x : α) (rest : List UInt8) :
    c.decode (c.encode x ++ rest) = .ok (x, rest) :=
  (lawful x).decode_encode rest

theorem decode_encode_nil (lawful : c.Lawful) (x : α) : c.decode (c.encode x) = .ok (x, []) := by
  simpa using lawful.decode_encode x []

/-- An empty encoding would be read off the front of every other one. -/
theorem encode_ne_nil [Nontrivial α] (lawful : c.Lawful) (x : α) : c.encode x ≠ [] := by
  intro empty
  obtain ⟨y, different⟩ := exists_ne x
  have here := lawful.decode_encode x (c.encode y)
  rw [empty, List.nil_append, lawful.decode_encode_nil y] at here
  injection here with same
  exact different (congrArg Prod.fst same)

end Lawful

/-- A codec from an encoder whose output is measured and a partial decoder. -/
def ofPartial (failure : ε) (encode : α → List UInt8)
    (decode : List UInt8 → Option (α × List UInt8)) : Codec ε α where
  encode
  length x := (encode x).length
  decode buffer :=
    match decode buffer with
    | some read => .ok read
    | none => .error failure

theorem ofPartial_lawful {failure : ε} {encode : α → List UInt8}
    {decode : List UInt8 → Option (α × List UInt8)}
    (inverse : ∀ x rest, decode (encode x ++ rest) = some (x, rest)) :
    (ofPartial failure encode decode).Lawful := by
  intro x
  refine ⟨rfl, fun rest => ?_⟩
  simp only [ofPartial, inverse x rest]

/-- What stands in front of an item: whether it is a list, and the length of its payload. -/
structure Header where
  list : Bool
  payloadLength : Nat
  deriving DecidableEq

/-- A header codec is only asked for the headers of lists, and in front of their payload. -/
structure LawfulHeader (header : Codec ε Header) : Prop where
  length_eq : ∀ n, header.length ⟨true, n⟩ = (header.encode ⟨true, n⟩).length
  decode_encode : ∀ n rest, n ≤ rest.length →
    header.decode (header.encode ⟨true, n⟩ ++ rest) = .ok (⟨true, n⟩, rest)

def lengthList (header : Codec ε Header) (payloadLength : Nat) : Nat :=
  header.length ⟨true, payloadLength⟩ + payloadLength

def encodeList (header : Codec ε Header) (payloadLength : Nat) (payload : List UInt8) : List UInt8 :=
  header.encode ⟨true, payloadLength⟩ ++ payload

/-- The fields are read from the payload alone; the buffer moves past the payload,
whatever the fields leave of it. -/
def decodeList (header : Codec ε Header) (notList outOfRange : ε)
    (fields : List UInt8 → Except ε (α × List UInt8)) (buf : List UInt8) :
    Except ε (α × List UInt8) := do
  let (payload, buf) ← header.decode buf
  if !payload.list then .error notList
  else if payload.payloadLength ≤ buf.length then do
    let (x, _) ← fields (buf.take payload.payloadLength)
    return (x, buf.drop payload.payloadLength)
  else .error outOfRange

/-- The payload of the list at the front of a buffer, and what follows the list. -/
def splitList (header : Codec ε Header) (buf : List UInt8) : Option (List UInt8 × List UInt8) :=
  match header.decode buf with
  | .ok (⟨true, n⟩, body) => if n ≤ body.length then some (body.take n, body.drop n) else none
  | _ => none

theorem lengthList_eq {header : Codec ε Header} (lawful : LawfulHeader header)
    (payload : List UInt8) :
    lengthList header payload.length = (encodeList header payload.length payload).length := by
  rw [lengthList, encodeList, List.length_append, lawful.length_eq]

theorem decodeList_encodeList {header : Codec ε Header} (lawful : LawfulHeader header)
    {notList outOfRange : ε} {fields : List UInt8 → Except ε (α × List UInt8)}
    {payload : List UInt8} {x : α} {left : List UInt8} (read : fields payload = .ok (x, left))
    (rest : List UInt8) :
    decodeList header notList outOfRange fields (encodeList header payload.length payload ++ rest) =
      .ok (x, rest) := by
  have fits : payload.length ≤ (payload ++ rest).length := by simp
  rw [encodeList, List.append_assoc, decodeList, lawful.decode_encode _ _ fits]
  simp only [bind, Except.bind, Bool.not_true, Bool.false_eq_true, if_false, if_pos fits,
    List.take_left, List.drop_left, read]
  rfl

theorem splitList_encodeList {header : Codec ε Header} (lawful : LawfulHeader header)
    (payload rest : List UInt8) :
    splitList header (encodeList header payload.length payload ++ rest) = some (payload, rest) := by
  have fits : payload.length ≤ (payload ++ rest).length := by simp
  rw [encodeList, List.append_assoc, splitList, lawful.decode_encode _ _ fits]
  simp only [if_pos fits, List.take_left, List.drop_left]

theorem decodeList_ok {header : Codec ε Header} {notList outOfRange : ε}
    {fields : List UInt8 → Except ε (α × List UInt8)} {buf rest : List UInt8} {x : α}
    (ran : decodeList header notList outOfRange fields buf = .ok (x, rest)) :
    ∃ payload left, splitList header buf = some (payload, rest) ∧ fields payload = .ok (x, left) := by
  obtain ⟨⟨⟨list, n⟩, body⟩, front, ran⟩ := Outcome.except_bind_eq_ok.mp ran
  cases list with
  | false => contradiction
  | true =>
    simp only [Bool.not_true, Bool.false_eq_true, if_false] at ran
    split at ran
    · rename_i fits
      obtain ⟨⟨y, left⟩, read, ran⟩ := Outcome.except_bind_eq_ok.mp ran
      cases ran
      exact ⟨_, left, by simp only [splitList, front, if_pos fits], read⟩
    · contradiction

/-- A list codec round-trips a value once both its lengths are that of the payload
and its field reader gets the value back from the payload. -/
theorem RoundTrips.of_list {c : Codec ε α} {header : Codec ε Header} (lawful : LawfulHeader header)
    {notList outOfRange : ε} {fields : List UInt8 → Except ε (α × List UInt8)} {x : α}
    {payload : List UInt8} (left : List UInt8) (length : c.length x = lengthList header payload.length)
    (encode : c.encode x = encodeList header payload.length payload)
    (decode : c.decode = decodeList header notList outOfRange fields)
    (read : fields payload = .ok (x, left)) : c.RoundTrips x := by
  constructor
  · rw [length, encode, lengthList_eq lawful]
  · intro rest
    rw [encode, decode, decodeList_encodeList lawful read]

/-- An optional value whose absence is a byte that no encoding starts with. -/
def marked (marker : UInt8) (c : Codec ε α) : Codec ε (Option α) where
  encode
    | some x => c.encode x
    | none => [marker]
  length
    | some x => c.length x
    | none => 1
  decode buf :=
    if buf.head? = some marker then .ok (none, buf.tail)
    else do
      let (x, buf) ← c.decode buf
      return (some x, buf)

theorem marked_lawful {marker : UInt8} {c : Codec ε α} (lawful : c.Lawful)
    (apart : ∀ x, ∃ head tail, c.encode x = head :: tail ∧ head ≠ marker) :
    (marked marker c).Lawful := by
  intro x
  cases x with
  | none => exact ⟨rfl, fun rest => by simp [marked]⟩
  | some x =>
    refine ⟨lawful.length_eq x, fun rest => ?_⟩
    obtain ⟨head, tail, encoded, different⟩ := apart x
    have unmarked : (c.encode x ++ rest).head? ≠ some marker := by
      simpa [encoded] using different
    simp only [marked, if_neg unmarked, lawful.decode_encode]
    rfl

/-- Only the encoding of a value is read as it. -/
def Canonical (c : Codec ε α) : Prop :=
  ∀ buf x rest, c.decode buf = .ok (x, rest) → buf = c.encode x ++ rest

/-- As for a codec, for the headers of lists. -/
def CanonicalHeader (header : Codec ε Header) : Prop :=
  ∀ buf n rest, header.decode buf = .ok (⟨true, n⟩, rest) → buf = header.encode ⟨true, n⟩ ++ rest

/-- What follows the item at the front of a buffer. -/
def behind (c : Codec ε α) (buf : List UInt8) : Option (List UInt8) := (c.decode buf).toOption.map Prod.snd

theorem behind_of_decode {c : Codec ε α} {buf rest : List UInt8} {x : α} (read : c.decode buf = .ok (x, rest)) :
    c.behind buf = some rest := by
  rw [behind, read]
  rfl

theorem marked_canonical {marker : UInt8} {c : Codec ε α} (canonical : c.Canonical) :
    (marked marker c).Canonical := by
  intro buf x rest read
  simp only [marked] at read
  split at read
  · rename_i head
    cases read
    obtain ⟨tail, rfl⟩ := List.head?_eq_some_iff.mp head
    rfl
  · obtain ⟨⟨y, rest'⟩, front, same⟩ := Outcome.except_bind_eq_ok.mp read
    cases same
    exact canonical buf y rest' front

theorem splitList_canonical {header : Codec ε Header} (canonical : CanonicalHeader header)
    {buf payload rest : List UInt8} (split : splitList header buf = some (payload, rest)) :
    buf = encodeList header payload.length payload ++ rest := by
  unfold splitList at split
  split at split
  · rename_i n body front
    split at split
    · rename_i fits
      cases split
      rw [encodeList, List.length_take_of_le fits, List.append_assoc, List.take_append_drop]
      exact canonical buf n body front
    · contradiction
  · contradiction

/-- A list is the encoding of what it decodes to exactly when its fields are, and nothing
follows them. -/
theorem list_canonical_iff {header : Codec ε Header} (tight : List UInt8 → Prop) (lawful : LawfulHeader header)
    (canonical : CanonicalHeader header) {notList outOfRange : ε}
    {fields : List UInt8 → Except ε (α × List UInt8)} {encodeFields : α → List UInt8}
    {behindFields : List UInt8 → Option (List UInt8)} {buf rest : List UInt8} {x : α}
    (fields_encode : fields (encodeFields x) = .ok (x, []))
    (fields_iff : ∀ payload left, fields payload = .ok (x, left) →
      behindFields payload = some left ∧ (payload = encodeFields x ++ left ↔ tight payload))
    (ran : decodeList header notList outOfRange fields buf = .ok (x, rest)) :
    buf = encodeList header (encodeFields x).length (encodeFields x) ++ rest ↔
      ∃ payload left, splitList header buf = some (payload, left) ∧ tight payload ∧
        behindFields payload = some [] := by
  obtain ⟨payload, left, split, read⟩ := decodeList_ok ran
  obtain ⟨after, iff⟩ := fields_iff payload left read
  constructor
  · intro encoded
    have whole := splitList_encodeList lawful (encodeFields x) rest
    rw [← encoded, split] at whole
    cases whole
    cases fields_encode.symm.trans read
    exact ⟨_, _, split, iff.mp (List.append_nil _).symm, after⟩
  · rintro ⟨payload', left', split', holds, none⟩
    cases split.symm.trans split'
    cases after.symm.trans none
    have same := iff.mpr holds
    rw [List.append_nil] at same
    rw [← same]
    exact splitList_canonical canonical split

/-- A codec that turns down what is not the encoding of the value read. -/
def strict (failure : ε) (c : Codec ε α) : Codec ε α where
  encode := c.encode
  length := c.length
  decode buf := do
    let (x, rest) ← c.decode buf
    if c.encode x ++ rest = buf then return (x, rest) else .error failure

theorem strict_canonical (failure : ε) (c : Codec ε α) : (strict failure c).Canonical := by
  intro buf x rest read
  obtain ⟨⟨y, rest'⟩, _, read⟩ := Outcome.except_bind_eq_ok.mp read
  simp only at read
  split at read
  · rename_i same
    cases read
    exact same.symm
  · contradiction

theorem strict_decode_encode (failure : ε) {c : Codec ε α} {x : α} {rest : List UInt8}
    (read : c.decode (c.encode x ++ rest) = .ok (x, rest)) :
    (strict failure c).decode (c.encode x ++ rest) = .ok (x, rest) := by
  simp only [strict]
  rw [Outcome.except_bind_eq_ok]
  exact ⟨_, read, if_pos rfl⟩

theorem strict_lawful {failure : ε} {c : Codec ε α} (lawful : c.Lawful) : (strict failure c).Lawful :=
  fun x => ⟨lawful.length_eq x, fun rest => strict_decode_encode failure (lawful.decode_encode x rest)⟩

end Codec
