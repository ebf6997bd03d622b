import DebtChannel.Abi.Token
import DebtChannel.Address
import DebtChannel.Hash.Basic
import DebtChannel.Signature.Basic

/-!
# Values that can be encoded

Values of a program come in more kinds than contracts know. `Value.toToken` maps those that have a
counterpart and names the first one that has none, from left to right. A byte string is taken for
bytes of fixed size, which a slot has to hold; directly below the mark `dynamic` it is taken for
bytes of any length.
-/

namespace DebtChannel.Abi

/-- The widths of integers. -/
inductive Width where
  | w8 | w16 | w32 | w64 | w128
deriving DecidableEq

/-- The number of bits. -/
def Width.bits : Width → Nat
  | w8 => 8
  | w16 => 16
  | w32 => 32
  | w64 => 64
  | w128 => 128

/-- A number of any width keeps its value where there are 256 bits. -/
theorem Width.toNat_setWidth (width : Width) (value : BitVec width.bits) :
    (value.setWidth 256).toNat = value.toNat := by
  have hfits : Nat.pow 2 width.bits ≤ Nat.pow 2 256 := by cases width <;> decide
  rw [BitVec.toNat_setWidth]
  exact Nat.mod_eq_of_lt (Nat.lt_of_lt_of_le value.isLt hfits)

/-- A value of a program. -/
inductive Value where
  /-- A truth value. -/
  | bool (value : Bool)
  /-- An unsigned integer. -/
  | uint (width : Width) (value : BitVec width.bits)
  /-- A signed integer in two's complement. -/
  | int (width : Width) (value : BitVec width.bits)
  /-- A floating-point number of 32 bits. -/
  | float32
  /-- A floating-point number of 64 bits. -/
  | float64
  /-- A single character. -/
  | char (value : Char)
  /-- A text. -/
  | text (value : String)
  /-- A string of bytes. -/
  | bytes (content : Bytes)
  /-- The mark that a byte string directly below it may have any length. -/
  | dynamic (value : Value)
  /-- An optional value that is absent. -/
  | absent
  /-- An optional value that is present. -/
  | present (value : Value)
  /-- The value of the type with one value. -/
  | unit
  /-- A record without fields. -/
  | unitRecord (name : String)
  /-- A case of the named enumeration, with its fields. -/
  | variant (name : String) (fields : List Value)
  /-- A record of one field, without a name for it. -/
  | newtype (value : Value)
  /-- Any number of values of one type. -/
  | sequence (items : List Value)
  /-- A fixed number of values, also those of a record. -/
  | tuple (items : List Value)
  /-- A map, its keys and values in turn. -/
  | map (entries : List Value)
  /-- A value that refuses to be encoded, and why. -/
  | refusal (reason : String)

/-- Why a value has no encoding. -/
inductive Error where
  /-- Contracts know nothing like the named type. -/
  | typeNotRepresentable (name : String)
  /-- Bytes of fixed size do not fit into a slot. -/
  | fixedBytesTooLong (size : Nat)
  /-- The value refused. -/
  | custom (reason : String)
deriving DecidableEq

/-- What the error says to a reader. -/
def Error.message : Error → String
  | typeNotRepresentable name => "type is not representable in abi encoding: " ++ name
  | fixedBytesTooLong size => s!"fixed-size bytes must fit into 32 bytes, got {size}"
  | custom reason => reason

/-- The token of a byte string: one slot with the bytes at its left end, or bytes of any length. -/
def Token.ofBytes (dynamic : Bool) (content : Bytes) : Except Error Token :=
  if dynamic then .ok (.bytes content)
  else if h : content.length ≤ 32 then .ok (.word ⟨content.padRight 32, Bytes.length_padRight h⟩)
  else .error (.fixedBytesTooLong content.length)

namespace Value

mutual

/-- The token of a value; `dynamic` tells whether the mark stands directly above it. -/
def tokenBelow (dynamic : Bool) : Value → Except Error Token
  | bool value => .ok (.flag value)
  | uint _ value => .ok (.word (Uint256.toBytes (value.setWidth 256)))
  | int _ value => .ok (.word (Uint256.toBytes (value.signExtend 256)))
  | float32 => .error (.typeNotRepresentable "f32")
  | float64 => .error (.typeNotRepresentable "f64")
  | char _ => .error (.typeNotRepresentable "char")
  | text value => .ok (.bytes (Bytes.ofString value))
  | bytes content => Token.ofBytes dynamic content
  | .dynamic value => tokenBelow true value
  | absent => .error (.typeNotRepresentable "Option")
  | present _ => .error (.typeNotRepresentable "Option")
  | unit => .error (.typeNotRepresentable "()")
  | unitRecord name => .error (.typeNotRepresentable name)
  | variant name _ => .error (.typeNotRepresentable name)
  | newtype value => (tokenBelow false value).map fun token => .tuple [token]
  | sequence items => (tokens items).map .array
  | tuple items => (tokens items).map .tuple
  | map _ => .error (.typeNotRepresentable "map")
  | refusal reason => .error (.custom reason)

/-- The tokens of values, up to the first that has none. -/
def tokens : List Value → Except Error (List Token)
  | [] => .ok []
  | value :: values =>
      match tokenBelow false value with
      | .error cause => .error cause
      | .ok token =>
          match tokens values with
          | .error cause => .error cause
          | .ok rest => .ok (token :: rest)

end

/-- The token of a value, or why it has none. -/
def toToken (value : Value) : Except Error Token := tokenBelow false value

/-- A number of 256 bits, as the bytes of its slot. -/
def ofUint256 (value : Uint256) : Value := .bytes value.toBytes.toList

/-- An address, as the bytes of its slot; it stands at the right end. -/
def ofAddress (address : Address) : Value := .bytes address.padded.toList

/-- Bytes of fixed size, such as a hash, a destination or a signature. -/
def ofFixedBytes {n : Nat} (content : FixedBytes n) : Value := .bytes content.toList

end Value

end DebtChannel.Abi
