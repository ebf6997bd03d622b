import DebtChannel.Opening.Basic
import DebtChannel.State.Message

/-!
# Proposals of channels as messages

A proposal that comes in has to agree with itself: each participant carries the index of its place,
and the accounts are those that its state lists, in the same order.
-/

namespace DebtChannel

open Wire (ContentError DecodeError)

namespace Participant

/-- The participant as it is written. -/
def toMessage (participant : Participant) : Wire.Message.Participant where
  address := participant.address.toList
  destination := participant.destination.toList
  lockedAmount := participant.lockedAmount.toBytes.toList
  index := participant.index

/-- The participant of a message. -/
def ofMessage (message : Wire.Message.Participant) : Except ContentError Participant := do
  let address ← Wire.address "address" message.address
  let destination ← Wire.destination "destination" message.destination
  let lockedAmount ← Wire.uint256 "locked_amount" message.lockedAmount
  .ok ⟨address, destination, lockedAmount, message.index⟩

end Participant

namespace ContractRef

/-- The contracts as they are written. -/
def toMessage (contract : ContractRef) : Wire.Message.Contract :=
  ⟨contract.adjudicator.toList, contract.asset.toList⟩

/-- The contracts of a message. -/
def ofMessage (message : Wire.Message.Contract) : Except ContentError ContractRef := do
  let adjudicator ← Wire.address "adjudicator" message.adjudicator
  let asset ← Wire.address "asset" message.asset
  .ok ⟨adjudicator, asset⟩

end ContractRef

namespace Opening

/-- The proposal as it is written. -/
def toMessage (opening : Opening) : Wire.Message.Opening where
  participants := opening.participants.map Participant.toMessage
  contract := some opening.contract.toMessage
  state := some opening.state.toMessage

/-- The proposal of a message. -/
def ofMessage (message : Wire.Message.Opening) : Except ContentError Opening := do
  let participants ← message.participants.mapM Participant.ofMessage
  let state ← message.state.elim (.error (.missing "state")) State.ofMessage
  if Participant.inPlace 0 participants state.participants then
    let contract ← message.contract.elim (.error (.missing "contract")) ContractRef.ofMessage
    .ok ⟨participants, contract, state⟩
  else .error .participantMismatch

/-- The bytes of a proposal. -/
def encode (opening : Opening) : Bytes := Wire.Field.writeAll opening.toMessage.fields

/-- The proposal of the bytes. -/
def decode (bytes : Bytes) : Except DecodeError Opening :=
  Wire.decode Wire.Message.Opening.read ofMessage bytes

end Opening

end DebtChannel
