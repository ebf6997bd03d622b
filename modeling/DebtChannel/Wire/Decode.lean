import DebtChannel.Address
import DebtChannel.Uint256
import DebtChannel.Wire.Message

/-!
# From raw fields to values

A message of good form may still hold nothing of use: an address of 19 bytes, two balances of one
asset, a proposal without a state. This module names what can be wrong with the content of a
message, and reads the raw fields that all messages share.
-/

namespace DebtChannel.Wire

/-- What is wrong with the content of a message. -/
inductive ContentError where
  /-- A field has the wrong number of bytes. -/
  | byteLengthMismatch (field : String) (expected got : Nat)
  /-- A field is missing. -/
  | missing (field : String)
  /-- The kind of a share is no byte. -/
  | allocationTypeOutOfRange (value : UInt32)
  /-- A pair has more than one entry. -/
  | duplicateLiability (debtor creditor : UInt64)
  /-- An asset has more than one amount. -/
  | duplicateAsset (asset : String)
  /-- The members of a proposal are not those of its state. -/
  | participantMismatch
deriving DecidableEq

/-- What the error says to a reader. -/
def ContentError.message : ContentError → String
  | byteLengthMismatch field expected got =>
      "field `" ++ field ++ "` must be " ++ toString expected ++ " bytes, got " ++ toString got
  | missing field => "field `" ++ field ++ "` is missing"
  | allocationTypeOutOfRange value =>
      "allocation type " ++ toString value.toNat ++ " does not fit into u8"
  | duplicateLiability debtor creditor =>
      "liabilities from " ++ toString debtor.toNat ++ " to " ++ toString creditor.toNat
        ++ " appear more than once"
  | duplicateAsset asset => "asset " ++ asset ++ " appears more than once in a liability"
  | participantMismatch => "participants of the proposal and its state differ"

/-- Why bytes could not be read. -/
inductive DecodeError where
  /-- There are none. -/
  | empty
  /-- They do not have the form of a message. -/
  | form
  /-- The message holds something of no use. -/
  | content (cause : ContentError)
deriving DecidableEq

/-- What the error says to a reader. -/
def DecodeError.message : DecodeError → String
  | empty => "empty byte array"
  | form => "invalid protobuf message"
  | content cause => "invalid message content: " ++ cause.message

/-- The address that a field holds. -/
def address (field : String) (bytes : Bytes) : Except ContentError Address :=
  (Address.ofList? bytes).elim (.error (.byteLengthMismatch field 20 bytes.length)) .ok

/-- The destination that a field holds. -/
def destination (field : String) (bytes : Bytes) : Except ContentError Destination :=
  (Destination.ofList? bytes).elim (.error (.byteLengthMismatch field 32 bytes.length)) .ok

/-- The number that a field holds, in at most 32 bytes. -/
def uint256 (field : String) (bytes : Bytes) : Except ContentError Uint256 :=
  if bytes.length ≤ 32 then .ok (Uint256.ofBytes bytes)
  else .error (.byteLengthMismatch field 32 bytes.length)

theorem address_toList (field : String) (account : Address) :
    address field account.toList = .ok account := by
  rw [address, Address.ofList?, FixedBytes.ofList?_toList]
  rfl

theorem destination_toList (field : String) (found : Destination) :
    destination field found.toList = .ok found := by
  rw [destination, Destination.ofList?, FixedBytes.ofList?_toList]
  rfl

/-- A number of 256 bits that is written in full reads back. -/
theorem uint256_toBytes (field : String) (value : Uint256) :
    uint256 field value.toBytes.toList = .ok value := by
  rw [uint256, if_pos (Nat.le_of_eq value.toBytes.length_toList), Uint256.ofBytes_toBytes]

/-- The value of a message, read first by its form and then by its content. -/
def decodeAny {α β : Type} (read : Nat → Reader α) (convert : α → Except ContentError β)
    (bytes : Bytes) : Except DecodeError β :=
  match Message.ofBytes? read bytes with
  | none => .error .form
  | some message => (convert message).mapError .content

/-- The value of a message that takes at least one byte. -/
def decode {α β : Type} (read : Nat → Reader α) (convert : α → Except ContentError β)
    (bytes : Bytes) : Except DecodeError β :=
  if bytes = [] then .error .empty else decodeAny read convert bytes

end DebtChannel.Wire
