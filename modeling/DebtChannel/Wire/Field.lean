import DebtChannel.Wire.Varint

/-!
# Fields of messages

A message is a string of fields, each with a number and a payload. This module takes byte strings
apart into fields and puts them together again; what the fields mean is up to the message. Two
kinds of payload are in use here, numbers of variable length and byte strings with their length in
front. Payloads of all other kinds, among them groups of fields, are read over, so that a message
from a newer participant can still be read.

Messages and groups together may be nested only so deep: at depth zero no field is read any more.
-/

namespace DebtChannel.Wire

/-- What a field holds. -/
inductive Payload where
  /-- A number below `2 ^ 64`. -/
  | number (value : Nat)
  /-- A string of bytes: a text, a message or just bytes. -/
  | content (bytes : Bytes)
  /-- A payload of a kind that no message here has. -/
  | other
deriving DecidableEq

/-- A field of a message. -/
structure Field where
  /-- The number that tells which field it is. -/
  number : Nat
  /-- What it holds. -/
  payload : Payload
deriving DecidableEq

namespace Field

/-- The bytes of a field. A payload of a kind that is not in use has none. -/
def write (field : Field) : Bytes :=
  match field.payload with
  | .number value => varint (8 * field.number) ++ varint value
  | .content bytes => varint (8 * field.number + 2) ++ (varint bytes.length ++ bytes)
  | .other => []

/-- The bytes of fields, one after the other. -/
def writeAll (fields : List Field) : Bytes := fields.flatMap write

end Field

/-- What the key in front of a field announces. -/
inductive Kind where
  /-- A number of variable length. -/
  | varint
  /-- Eight bytes. -/
  | fixed64
  /-- Bytes with their length in front. -/
  | delimited
  /-- The fields up to the end of the group. -/
  | groupStart
  /-- The end of a group. -/
  | groupEnd
  /-- Four bytes. -/
  | fixed32
deriving DecidableEq

/-- The kind that the three low bits of a key stand for. -/
def Kind.ofNat? : Nat → Option Kind
  | 0 => some .varint
  | 1 => some .fixed64
  | 2 => some .delimited
  | 3 => some .groupStart
  | 4 => some .groupEnd
  | 5 => some .fixed32
  | _ => none

/-- The key at the front of the bytes: the number of a field and its kind. -/
def readKey (bytes : Bytes) : Option ((Nat × Kind) × Bytes) := do
  let (key, rest) ← readVarint bytes
  let kind ← Kind.ofNat? (key % 8)
  if key < UInt32.size ∧ 8 ≤ key then some ((key / 8, kind), rest) else none

/-- The first `count` bytes and what stands behind them. -/
def readBytes (count : Nat) (bytes : Bytes) : Option (Bytes × Bytes) :=
  if count ≤ bytes.length then some (bytes.take count, bytes.drop count) else none

/-- The payload of a kind other than the two of groups. -/
def readPayload (kind : Kind) (bytes : Bytes) : Option (Payload × Bytes) :=
  match kind with
  | .varint => do
      let (value, rest) ← readVarint bytes
      some (.number value, rest)
  | .fixed64 => do
      let (_, rest) ← readBytes 8 bytes
      some (.other, rest)
  | .delimited => do
      let (size, rest) ← readVarint bytes
      let (content, rest) ← readBytes size rest
      some (.content content, rest)
  | .fixed32 => do
      let (_, rest) ← readBytes 4 bytes
      some (.other, rest)
  | .groupStart => none
  | .groupEnd => none

/-- The fields of the bytes, at most `count` keys of them, within the groups that are open,
innermost first. Fields of an open group are dropped; the group as a whole counts as one field. -/
def readFieldsIn (depth : Nat) : (count : Nat) → (opened : List Nat) → Bytes → Option (List Field)
  | _, [], [] => some []
  | _, _ :: _, [] => none
  | 0, _, _ :: _ => none
  | count + 1, opened, b :: bytes =>
      match readKey (b :: bytes) with
      | none => none
      | some ((number, .groupEnd), rest) =>
          match opened with
          | [] => none
          | innermost :: outer =>
              if innermost ≠ number then none
              else
                let behind := readFieldsIn depth count outer rest
                if outer = [] then behind.map (⟨number, .other⟩ :: ·) else behind
      | some ((number, .groupStart), rest) =>
          if opened.length < depth then readFieldsIn depth count (number :: opened) rest else none
      | some ((number, kind), rest) =>
          if opened.length < depth then
            match readPayload kind rest with
            | none => none
            | some (payload, rest) =>
                let behind := readFieldsIn depth count opened rest
                if opened = [] then behind.map (⟨number, payload⟩ :: ·) else behind
          else none

/-- The fields of a message that may be nested to the given depth. -/
def readFields (depth : Nat) (bytes : Bytes) : Option (List Field) :=
  readFieldsIn depth bytes.length [] bytes

/-! ## Fields by number -/

namespace Field

/-- The number that the field holds. -/
def number? (field : Field) : Option Nat :=
  match field.payload with
  | .number value => some value
  | _ => none

/-- The bytes that the field holds. -/
def content? (field : Field) : Option Bytes :=
  match field.payload with
  | .content bytes => some bytes
  | _ => none

end Field

/-- What a part of a message reads from the message's fields. -/
abbrev Reader (α : Type) := List Field → Option α

namespace Reader

/-- All numbers under a field number, in order; each has to be one. -/
def numbers (number : Nat) : Reader (List Nat) := fun fields =>
  (fields.filter (·.number = number)).mapM Field.number?

/-- All byte strings under a field number, in order; each has to be one. -/
def contents (number : Nat) : Reader (List Bytes) := fun fields =>
  (fields.filter (·.number = number)).mapM Field.content?

/-- The last number under a field number, zero if there is none. -/
def uint64 (number : Nat) : Reader UInt64 := fun fields => do
  some (UInt64.ofNat ((← numbers number fields).getLastD 0))

/-- The low 32 bits of the last number under a field number, zero if there is none. -/
def uint32 (number : Nat) : Reader UInt32 := fun fields => do
  some (UInt32.ofNat ((← numbers number fields).getLastD 0))

/-- Whether the last number under a field number is there and not zero. -/
def bool (number : Nat) : Reader Bool := fun fields => do
  some ((← numbers number fields).getLastD 0 != 0)

/-- The last bytes under a field number, none if there are none. -/
def bytes (number : Nat) : Reader Bytes := fun fields => do
  some ((← contents number fields).getLastD [])

/-- The last text under a field number, empty if there is none. Each has to be a text. -/
def string (number : Nat) : Reader String := fun fields => do
  let texts ← (← contents number fields).mapM Bytes.toString?
  some (texts.getLastD "")

/-- The messages under a field number, in order. -/
def messages {α : Type} (depth : Nat) (read : Reader α) (number : Nat) : Reader (List α) :=
  fun fields => do
    (← contents number fields).mapM fun content => do read (← readFields depth content)

/-- The message under a field number, if there is any. If there are several, they are one message
whose fields are those of all, in order. -/
def message? {α : Type} (depth : Nat) (read : Reader α) (number : Nat) : Reader (Option α) :=
  fun fields => do
    match ← contents number fields with
    | [] => some none
    | found => return some (← read (← found.mapM (readFields depth)).flatten)

end Reader

/-! ## Fields to be written -/

namespace Field

/-- The field of a number, left out for zero. -/
def ofNumber (number value : Nat) : List Field :=
  if value = 0 then [] else [⟨number, .number value⟩]

/-- The field of a flag, left out for false. -/
def ofBool (number : Nat) (value : Bool) : List Field := ofNumber number value.toNat

/-- The field of a string of bytes, left out for none. -/
def ofBytes (number : Nat) (value : Bytes) : List Field :=
  if value = [] then [] else [⟨number, .content value⟩]

/-- The field of a text, left out for the empty one. -/
def ofString (number : Nat) (value : String) : List Field := ofBytes number (Bytes.ofString value)

/-- The field of a message, never left out. -/
def ofMessage (number : Nat) (fields : List Field) : Field := ⟨number, .content (writeAll fields)⟩

end Field

end DebtChannel.Wire
