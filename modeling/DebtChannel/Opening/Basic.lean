import DebtChannel.Config
import DebtChannel.State.Hash

/-!
# Opening a channel

A channel begins with a proposal: the participants with their deposits, the contracts, and the
state of turn zero, which gives every deposit back. The proposal starts with one participant; the
others are appended one after the other, each with the index of the place that it takes.
-/

namespace DebtChannel

/-- A member of a channel. -/
structure Participant where
  /-- The account that signs. -/
  address : Address
  /-- Where the money of the participant goes in the end. -/
  destination : Destination
  /-- What the participant deposits. -/
  lockedAmount : Uint256
  /-- The place among the participants. -/
  index : UInt64
deriving DecidableEq

/-- A participant whose money goes back to its account. -/
def Participant.ofAddress (address : Address) (index : UInt64) (lockedAmount : Uint256) :
    Participant :=
  ⟨address, address.toDestination, lockedAmount, index⟩

/-- Whether the participants, of whom the first has index `start`, carry the indices of their
places and the accounts of a list. -/
def Participant.inPlace (start : Nat) : List Participant → List Address → Bool
  | [], [] => true
  | participant :: participants, account :: accounts =>
      participant.index.toNat == start && participant.address == account
        && inPlace (start + 1) participants accounts
  | _, _ => false

/-- The contracts that a channel settles on. -/
structure ContractRef where
  /-- The contract that holds the deposits. -/
  adjudicator : Address
  /-- The contract of the asset, the zero address for the native coin. -/
  asset : Address
deriving DecidableEq

/-- The proposal of a new channel. -/
structure Opening where
  /-- The members. -/
  participants : List Participant
  /-- The contracts. -/
  contract : ContractRef
  /-- The state of turn zero. -/
  state : State
deriving DecidableEq

namespace Opening

/-- Why a participant was not taken in. -/
inductive Error where
  /-- The account is a member already. -/
  | duplicateParticipant (account : Address)
  /-- The index is not that of the next place. -/
  | unexpectedIndex (expected : Nat) (got : UInt64)
deriving DecidableEq

/-- What the error says to a reader. -/
def Error.message : Error → String
  | duplicateParticipant account =>
      "participant " ++ account.display ++ " is already part of the proposal"
  | unexpectedIndex expected got =>
      "participant must have index " ++ toString expected ++ ", got " ++ toString got.toNat

/-- The proposal with one more participant, who gets a share of every asset. -/
def addParticipant (opening : Opening) (participant : Participant) : Except Error Opening :=
  if opening.participants.any (·.address == participant.address) then
    .error (.duplicateParticipant participant.address)
  else if participant.index.toNat ≠ opening.participants.length then
    .error (.unexpectedIndex opening.participants.length participant.index)
  else
    let share := Allocation.simple participant.destination participant.lockedAmount
    .ok { opening with
      participants := opening.participants ++ [participant]
      state := { opening.state with
        participants := opening.state.participants ++ [participant.address]
        outcome := opening.state.outcome.map fun exit =>
          { exit with allocations := exit.allocations ++ [share] } } }

/-- The proposal after a participant asked to be taken in, which is the same one if that is
refused. -/
def after (opening : Opening) (participant : Participant) : Opening :=
  match opening.addParticipant participant with
  | .ok joined => joined
  | .error _ => opening

/-- The proposal after participants asked to be taken in, one after the other. -/
def afterAll (opening : Opening) (participants : List Participant) : Opening :=
  participants.foldl after opening

/-- The proposal before anyone has joined. -/
def start (chainId : Uint256) (contract : ContractRef) (channelNonce : Uint256)
    (config : Config) : Opening where
  participants := []
  contract := contract
  state := {
    chainId, channelNonce
    participants := []
    appDefinition := Address.zero
    challengeDuration := config.challengeDuration
    appData := []
    outcome := [⟨contract.asset, [], []⟩]
    turn := 0
    isFinal := false }

/-- The proposal of its first participant. -/
def ofInitiator (chainId : Uint256) (contract : ContractRef) (initiator : Participant)
    (channelNonce : Uint256) (config : Config) : Except Error Opening :=
  (start chainId contract channelNonce config).addParticipant initiator

/-- The id that the channel will have. -/
def channelId (opening : Opening) : Hash := opening.state.channelId

end Opening

end DebtChannel
