import DebtChannel.Address
import DebtChannel.Uint256

/-!
# States of a channel

A channel is a fixed part, which names it for ever, and a row of states with ascending turn
numbers. A state says how the assets would be shared out if it were the last one, and carries the
data that the participants agree on. The participants of the fixed part and the shares of the
outcome belong together by their place: share `i` is that of participant `i`.
-/

namespace DebtChannel

/-- A share of an asset. -/
structure Allocation where
  /-- Where the share goes. -/
  destination : Destination
  /-- The share. -/
  amount : Uint256
  /-- What kind of share it is, zero for a plain transfer. -/
  allocationType : UInt8
  /-- Further data for that kind. -/
  metadata : Bytes
deriving DecidableEq

/-- A plain transfer. -/
def Allocation.simple (destination : Destination) (amount : Uint256) : Allocation :=
  ⟨destination, amount, 0, []⟩

/-- How one asset is shared out. -/
structure Exit where
  /-- The contract of the asset. -/
  asset : Address
  /-- Further data. -/
  metadata : Bytes
  /-- The shares, in the order of the participants. -/
  allocations : List Allocation
deriving DecidableEq

/-- How all assets are shared out. -/
abbrev Outcome := List Exit

/-- What never changes while a channel lives. -/
structure FixedPart where
  /-- The chain that the channel settles on. -/
  chainId : Uint256
  /-- The accounts that have to agree to every state. -/
  participants : List Address
  /-- The number that tells channels of the same participants apart. -/
  channelNonce : Uint256
  /-- The contract with the rules of the channel, the zero address for none. -/
  appDefinition : Address
  /-- Seconds that the adjudicator waits for the answer to a challenge. -/
  challengeDuration : UInt64
deriving DecidableEq

/-- A channel at one turn. -/
structure State extends FixedPart where
  /-- The data that the participants agree on. -/
  appData : Bytes
  /-- How the assets would be shared out. -/
  outcome : Outcome
  /-- The number of the state. -/
  turn : UInt64
  /-- Whether the channel ends with this state. -/
  isFinal : Bool
deriving DecidableEq

namespace State

/-- Whether the state belongs to the channel of a fixed part. -/
def hasFixedPart (state : State) (fixed : FixedPart) : Bool := state.toFixedPart == fixed

/-- The place of an account among the participants. -/
def participantIndex? (state : State) (account : Address) : Option Nat :=
  state.participants.findIdx? (· == account)

/-- What a state of a channel must not lack. -/
inductive Defect where
  /-- There is no participant. -/
  | noParticipants
  /-- An account is a participant twice. -/
  | duplicateParticipant
  /-- No asset is shared out. -/
  | noExit
  /-- An asset is not shared out among exactly the participants. -/
  | allocationMismatch
deriving DecidableEq

/-- What the defect says to a reader. -/
def Defect.message : Defect → String
  | noParticipants => "no participants"
  | duplicateParticipant => "duplicate participant"
  | noExit => "outcome has no asset exit"
  | allocationMismatch => "allocations do not match participants"

/-- Whether no account is listed twice. -/
def distinct : List Address → Bool
  | [] => true
  | account :: accounts => !accounts.contains account && distinct accounts

/-- The first defect of a state, if it has any. -/
def defect? (state : State) : Option Defect :=
  if state.participants.isEmpty then some .noParticipants
  else if !distinct state.participants then some .duplicateParticipant
  else if state.outcome.isEmpty then some .noExit
  else if state.outcome.any fun exit => exit.allocations.length != state.participants.length then
    some .allocationMismatch
  else none

end State

end DebtChannel
