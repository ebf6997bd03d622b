import DebtChannel.State.Basic
import DebtChannel.Wire.Decode

/-!
# States as messages

Numbers of 256 bits are written in full and read from up to 32 bytes.
-/

namespace DebtChannel

open Wire (ContentError DecodeError)

namespace Allocation

/-- The share as it is written. -/
def toMessage (share : Allocation) : Wire.Message.Allocation where
  destination := share.destination.toList
  amount := share.amount.toBytes.toList
  allocationType := share.allocationType.toUInt32
  metadata := share.metadata

/-- The share of a message. -/
def ofMessage (message : Wire.Message.Allocation) : Except ContentError Allocation := do
  let destination ← Wire.destination "destination" message.destination
  let amount ← Wire.uint256 "amount" message.amount
  if message.allocationType < 256 then
    .ok ⟨destination, amount, message.allocationType.toUInt8, message.metadata⟩
  else .error (.allocationTypeOutOfRange message.allocationType)

end Allocation

namespace Exit

/-- The shares of an asset as they are written. -/
def toMessage (exit : Exit) : Wire.Message.Exit where
  asset := exit.asset.toList
  metadata := exit.metadata
  allocations := exit.allocations.map Allocation.toMessage

/-- The shares of an asset of a message. -/
def ofMessage (message : Wire.Message.Exit) : Except ContentError Exit := do
  let asset ← Wire.address "asset" message.asset
  let allocations ← message.allocations.mapM Allocation.ofMessage
  .ok ⟨asset, message.metadata, allocations⟩

end Exit

namespace State

/-- The state as it is written. -/
def toMessage (state : State) : Wire.Message.State where
  chainId := state.chainId.toBytes.toList
  participants := state.participants.map fun account => account.toList
  channelNonce := state.channelNonce.toBytes.toList
  appDefinition := state.appDefinition.toList
  challengeDuration := state.challengeDuration
  appData := state.appData
  outcome := state.outcome.map Exit.toMessage
  turn := state.turn
  isFinal := state.isFinal

/-- The state of a message. -/
def ofMessage (message : Wire.Message.State) : Except ContentError State := do
  let chainId ← Wire.uint256 "chain_id" message.chainId
  let participants ← message.participants.mapM (Wire.address "participants")
  let channelNonce ← Wire.uint256 "channel_nonce" message.channelNonce
  let appDefinition ← Wire.address "app_definition" message.appDefinition
  let outcome ← message.outcome.mapM Exit.ofMessage
  .ok {
    chainId, participants, channelNonce, appDefinition
    challengeDuration := message.challengeDuration
    appData := message.appData
    outcome
    turn := message.turn
    isFinal := message.isFinal }

/-- The bytes of a state. -/
def encode (state : State) : Bytes := Wire.Field.writeAll state.toMessage.fields

/-- The state of the bytes. -/
def decode (bytes : Bytes) : Except DecodeError State :=
  Wire.decode Wire.Message.State.read ofMessage bytes

end State

end DebtChannel
