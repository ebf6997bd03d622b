import DebtChannel.Channel.Action

/-!
# Proposing and signing states

Whoever holds the key of a participant may sign: first the state before funding, then the one after
funding, and later the drafts of further turns. A turn is signed for one state only. A state is not
signed any more once everyone signed a later one, so that nobody can be led back to an outdated
state by his own hand; until then the last state may move back to a draft of an earlier turn.

Each operation is an action on the channel, with its tests and its changes in the order in which
they are made.
-/

namespace DebtChannel.Channel

/-- Why a state was not signed. -/
inductive SignError where
  /-- The key is none. -/
  | invalidPrivateKey
  /-- The state has another fixed part. -/
  | wrongChannel
  /-- Everyone signed a later turn already. -/
  | staleState (turn latestSupported : UInt64)
  /-- Another state is on record for the turn. -/
  | conflictingState (turn : UInt64)
  /-- The signer is no participant. -/
  | notAParticipant (signer : Address)
  /-- Everyone signed the state already. -/
  | alreadyComplete
  /-- No signature came out. -/
  | signing (cause : Signature.Error)
deriving DecidableEq

/-- What the error says to a reader. -/
def SignError.message : SignError → String
  | invalidPrivateKey => "invalid private key"
  | wrongChannel => "state does not belong to this channel"
  | staleState turn latestSupported =>
      "turn " ++ toString turn.toNat ++ " is older than the latest supported turn "
        ++ toString latestSupported.toNat
  | conflictingState turn =>
      "a different state was already signed for turn " ++ toString turn.toNat
  | notAParticipant signer =>
      "signer " ++ signer.display ++ " is not a participant of the channel"
  | alreadyComplete => "state already carries every signature"
  | signing cause => cause.message

/-- The first reason why a state cannot be signed, whoever signs. -/
def refusal? (channel : Channel) (state : State) : Option SignError :=
  if !state.hasFixedPart channel.fixed then some .wrongChannel
  else
    match channel.latestSupported.filter (state.turn < ·) with
    | some latest => some (.staleState state.turn latest)
    | none =>
        if (channel.signedTurn? state.turn).any (·.hash != state.hash) then
          some (.conflictingState state.turn)
        else none

/-- The signature over a state and the place of its signer. The signer is found again from the
signature, as everyone else will do. -/
def signatureBy (state : State) (key : PrivateKey) : Except SignError (Signature × Nat) := do
  let sig ← (key.signMessage state.hash).mapError .signing
  let signer ← (sig.recoverSigner state.hash).mapError .signing
  (state.participantIndex? signer).elim (.error (.notAParticipant signer)) fun index =>
    .ok (sig, index)

/-- The channel with a place on record for the turn of a state, if there was none. -/
def enter (channel : Channel) (state : State) : Channel :=
  if (channel.signedTurn? state.turn).isSome then channel
  else { channel with turns := channel.turns.put state.turn (.ofState state) }

/-- The channel with the signature of the participant at a place added to a turn on record. -/
def addSignature (channel : Channel) (turn : UInt64) (index : Nat) (sig : Signature) : Channel :=
  (channel.signedTurn? turn).elim channel fun entry =>
    { channel with turns := channel.turns.put turn (entry.addSignature index sig) }

/-- The channel with a turn as the highest one that everyone signed, if it is. -/
def noteSupport (channel : Channel) (turn : UInt64) : Channel :=
  if channel.isSupported turn && channel.latestSupported.all (· < turn) then
    { channel with latestSupported := some turn }
  else channel

/-- Signs a state and puts the signature on record. -/
def sign (state : State) (key : Bytes) : Action SignError Signature := do
  let secret ← Action.attempt ((PrivateKey.ofBytes key).mapError fun _ => .invalidPrivateKey)
  let channel ← Action.channel
  Action.refuse (channel.refusal? state)
  let (sig, index) ← Action.attempt (signatureBy state secret)
  Action.update (·.enter state)
  Action.update (·.addSignature state.turn index sig)
  Action.update (·.noteSupport state.turn)
  return sig

/-- The channel with a state that was just signed as its last one. -/
def advance (channel : Channel) (state : State) : Channel :=
  if state = channel.lastState then channel
  else { channel with lastState := state, lastTurn := max channel.lastTurn state.turn }

/-- Signs a state, which becomes the last one. -/
def signAsLast (state : State) (key : Bytes) : Action SignError Signature := do
  let sig ← sign state key
  Action.update (·.advance state)
  return sig

/-- Signs the state before funding. The last state stays what it is. -/
def approveInit (key : Bytes) : Action SignError Signature := do
  let channel ← Action.channel
  let preFund := channel.turns.preFund
  Action.refuse (if preFund.isComplete then some .alreadyComplete else none)
  sign preFund.state key

/-- Signs the state after funding, which becomes the last one. -/
def approveFunding (key : Bytes) : Action SignError Signature := do
  let channel ← Action.channel
  let postFund := channel.turns.postFund
  Action.refuse (if postFund.isComplete then some .alreadyComplete else none)
  signAsLast postFund.state key

/-- Signs the state of a draft, which becomes the last one. -/
def signState (draft : Draft) (key : Bytes) : Action SignError Signature :=
  signAsLast draft.state key

/-- Why no turn was handed out. -/
inductive ProposeError where
  /-- The last turn is not signed by everyone, as the policy asks for. -/
  | previousTurnUnsupported (turn : UInt64)
  /-- There is no next turn number. -/
  | turnOverflow
  /-- The channel has ended. -/
  | finalStateReached
  /-- The data of the last state is no ledger. -/
  | decode (cause : Wire.DecodeError)
deriving DecidableEq

/-- What the error says to a reader. -/
def ProposeError.message : ProposeError → String
  | previousTurnUnsupported turn =>
      "turn " ++ toString turn.toNat ++ " is not signed by every participant yet"
  | turnOverflow => "turn number overflow"
  | finalStateReached => "channel already reached its final state"
  | decode cause => cause.message

/-- The first reason why no turn can be handed out, the data of the last state aside. -/
def proposalRefusal? (channel : Channel) : Option ProposeError :=
  if channel.concluded || channel.lastState.isFinal then some .finalStateReached
  else if channel.policy = .requireSupported ∧ channel.isSupported channel.lastTurn = false then
    some (.previousTurnUnsupported channel.lastTurn)
  else if channel.lastTurn.toNat + 1 = UInt64.size then some .turnOverflow
  else none

/-- Hands out the next turn, with a draft of it. The draft is the last state with the turn after the
highest one handed out so far. -/
def proposeState : Action ProposeError Draft := do
  let channel ← Action.channel
  Action.refuse channel.proposalRefusal?
  let next := channel.lastTurn + 1
  let draft ← Action.attempt
    ((Draft.ofState { channel.lastState with turn := next }).mapError .decode)
  Action.update ({ · with lastState := draft.state })
  Action.update ({ · with lastTurn := next })
  return draft

end DebtChannel.Channel
