import DebtChannel.Adjudicator.Basic
import DebtChannel.Channel.SignedTurn
import DebtChannel.Draft
import DebtChannel.Opening.Basic
import DebtChannel.Signature.PrivateKey

/-!
# Channels

A channel as one of its participants sees it: every state that somebody signed, by turn, and the
last state, which was proposed or signed most recently. Turns are handed out one by one; the last
turn handed out can be ahead of the last state while drafts are outstanding. Everything else that
one may want to know of a channel, such as the phase of its life, follows from what is on record.
-/

namespace DebtChannel

/-- A channel, seen by one participant. -/
structure Channel where
  /-- The participant who sees it. -/
  partIndex : UInt64
  /-- The members. -/
  participants : List Participant
  /-- The contracts that it settles on. -/
  contract : ContractRef
  /-- What never changes. -/
  fixed : FixedPart
  /-- The turns on record. -/
  turns : SignedTurns
  /-- The state that was proposed or signed most recently. -/
  lastState : State
  /-- The highest turn handed out or signed as the last state. -/
  lastTurn : UInt64
  /-- The highest turn that everyone signed. -/
  latestSupported : Option UInt64
  /-- What proposing does while the turn before is not signed by everyone. -/
  policy : ProposalPolicy
  /-- Whether a deposit went through. -/
  depositSubmitted : Bool
  /-- Whether the channel was settled. -/
  concluded : Bool
deriving DecidableEq

namespace Channel

/-- What is wrong with the first state of a proposal. -/
inductive InitialDefect where
  /-- It is not the state of turn zero. -/
  | turnNotZero
  /-- It is final. -/
  | final
  /-- It is no state of a channel. -/
  | structural (defect : State.Defect)
  /-- Its participants are not those of the proposal. -/
  | participantMismatch
deriving DecidableEq

/-- What the defect says to a reader. -/
def InitialDefect.message : InitialDefect → String
  | turnNotZero => "turn number is not 0"
  | final => "state is final"
  | structural defect => defect.message
  | participantMismatch => "participants do not match the state"

/-- Why no channel was made of a proposal. -/
inductive CreateError where
  /-- The first state is no good. -/
  | invalidInitialState (defect : InitialDefect)
  /-- There is no participant with that index. -/
  | indexOutOfRange (index : UInt64)
deriving DecidableEq

/-- What the error says to a reader. -/
def CreateError.message : CreateError → String
  | invalidInitialState defect => "invalid initial state: " ++ defect.message
  | indexOutOfRange index => "participant index " ++ toString index.toNat ++ " is out of range"

/-- The first defect of the state that a proposal begins with, if it has any. -/
def initialDefect? (opening : Opening) : Option InitialDefect :=
  if opening.state.turn ≠ 0 then some .turnNotZero
  else if opening.state.isFinal then some .final
  else
    match opening.state.defect? with
    | some defect => some (.structural defect)
    | none =>
        if Participant.inPlace 0 opening.participants opening.state.participants then none
        else some .participantMismatch

/-- The channel that a proposal begins, before anything was signed. -/
def ofOpening (opening : Opening) (partIndex : UInt64) (policy : ProposalPolicy) : Channel where
  partIndex := partIndex
  participants := opening.participants
  contract := opening.contract
  fixed := opening.state.toFixedPart
  turns := .ofState opening.state
  lastState := opening.state
  lastTurn := 0
  latestSupported := none
  policy := policy
  depositSubmitted := false
  concluded := false

/-- The channel of a proposal, seen by the participant at a place. Of the settings only the policy
matters any more; the rest is part of the proposal. -/
def create (opening : Opening) (partIndex : UInt64) (config : Config := {}) :
    Except CreateError Channel :=
  match initialDefect? opening with
  | some defect => .error (.invalidInitialState defect)
  | none =>
      if partIndex.toNat < opening.participants.length then
        .ok (ofOpening opening partIndex config.proposalPolicy)
      else .error (.indexOutOfRange partIndex)

/-- The id of the channel. -/
def id (channel : Channel) : Hash := channel.fixed.channelId

/-- What is on record for a turn. -/
def signedTurn? (channel : Channel) (turn : UInt64) : Option SignedTurn := channel.turns.get? turn

/-- The signatures on record for a turn, if the turn is. -/
def signaturesFor? (channel : Channel) (turn : UInt64) : Option Signatures :=
  (channel.signedTurn? turn).map SignedTurn.signatures

/-- Whether everyone signed a turn. -/
def isSupported (channel : Channel) (turn : UInt64) : Bool := channel.turns.isSupported turn

/-- Whether everyone signed the state before funding. -/
def preFundComplete (channel : Channel) : Bool := channel.isSupported 0

/-- Whether everyone signed the state after funding. -/
def postFundComplete (channel : Channel) : Bool := channel.isSupported 1

/-- Where a channel is in its life. -/
inductive Phase where
  /-- Nothing is signed yet. -/
  | created
  /-- The state before funding is signed by some. -/
  | preFundSigning
  /-- The state before funding is signed by all. -/
  | preFundComplete
  /-- A deposit of ours went through. -/
  | funding
  /-- The state after funding is signed by some. -/
  | postFundSigning
  /-- The state after funding is signed by all. -/
  | postFundComplete
  /-- Further turns have been handed out. -/
  | interacting
  /-- The last state is final, the channel can be settled. -/
  | finalizing
  /-- The channel was settled. -/
  | concluded
deriving DecidableEq

/-- Whether turns above one were handed out or signed by everyone. -/
def isInteracting (channel : Channel) : Bool :=
  1 < channel.lastTurn || channel.latestSupported.any (1 < ·)

/-- Where the channel is in its life. What tells a later phase is looked at first. -/
def phase (channel : Channel) : Phase :=
  if channel.concluded then .concluded
  else if channel.lastState.isFinal then .finalizing
  else if channel.isInteracting then .interacting
  else if channel.turns.postFund.isComplete then .postFundComplete
  else if channel.turns.postFund.hasSignatures then .postFundSigning
  else if channel.depositSubmitted then .funding
  else if channel.turns.preFund.isComplete then .preFundComplete
  else if channel.turns.preFund.hasSignatures then .preFundSigning
  else .created

/-- What the adjudicator holds for the channel. -/
def checkHoldings {ρ ε : Type} (channel : Channel) (adjudicator : Adjudicator ρ ε) :
    Except ε Uint256 :=
  adjudicator.holdings channel.contract.asset channel.id

/-- Why a signature was not found to be that of a participant. -/
inductive CheckSignatureError where
  /-- The signer is no participant. -/
  | notAParticipant (signer : Address)
  /-- No signer was found. -/
  | recovery (cause : Signature.Error)
deriving DecidableEq

/-- What the error says to a reader. -/
def CheckSignatureError.message : CheckSignatureError → String
  | notAParticipant signer =>
      "signer " ++ signer.display ++ " is not a participant of the channel"
  | recovery cause => cause.message

/-- The place of the participant who signed a state. -/
def checkSignature (channel : Channel) (sig : Signature) (state : State) :
    Except CheckSignatureError Nat :=
  match sig.recoverSigner state.hash with
  | .error cause => .error (.recovery cause)
  | .ok signer =>
      (channel.fixed.participants.findIdx? (· == signer)).elim (.error (.notAParticipant signer)) .ok

end Channel

end DebtChannel
