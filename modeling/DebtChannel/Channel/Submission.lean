import DebtChannel.Channel.Action

/-!
# Deposits and settlement

The two operations that reach the adjudicator. A deposit is only made once everyone signed the
state that gives it back, and a channel is only settled by its last state, once that is final; both
are sent by the account of the participant that they are for. The call is worked out first, then
made, and then it is noted that it went through.
-/

namespace DebtChannel.Channel

/-- Why nobody could be found to send a call. -/
inductive SenderError where
  /-- There is no participant with that index. -/
  | unknownParticipant (index : UInt64)
  /-- The key is none. -/
  | invalidPrivateKey
  /-- The key is that of another account. -/
  | keyMismatch (expected got : Address)
deriving DecidableEq

/-- Why no deposit was made. -/
inductive FundError (ε : Type) where
  /-- The state before funding is not signed by everyone. -/
  | incompleteState
  /-- Nobody could be found to send the call. -/
  | sender (cause : SenderError)
  /-- The adjudicator gave an error. -/
  | contract (cause : ε)
deriving DecidableEq

/-- Why the channel was not settled. -/
inductive ConcludeError (ε : Type) where
  /-- The last state is not final. -/
  | notFinalState
  /-- Nobody could be found to send the call. -/
  | sender (cause : SenderError)
  /-- The channel is settled already. -/
  | alreadyConcluded
  /-- The last state does not settle the channel. -/
  | settlement (cause : Settlement.Error)
  /-- The adjudicator gave an error. -/
  | contract (cause : ε)
deriving DecidableEq

/-- What the error says to a reader, where `action` is what the call was to do. -/
def SenderError.message (action : String) : SenderError → String
  | unknownParticipant index =>
      "participant " ++ toString index.toNat ++ " is not part of the channel"
  | invalidPrivateKey => "invalid private key"
  | keyMismatch expected got =>
      "key of " ++ got.display ++ " cannot " ++ action ++ " for " ++ expected.display

/-- What the error says to a reader, in the words that `text` finds for the adjudicator's error. -/
def FundError.message {ε : Type} (text : ε → String) : FundError ε → String
  | incompleteState => "pre-fund state is not signed by every participant"
  | sender cause => cause.message "deposit"
  | contract cause => "settlement contract: " ++ text cause

/-- What the error says to a reader, in the words that `text` finds for the adjudicator's error. -/
def ConcludeError.message {ε : Type} (text : ε → String) : ConcludeError ε → String
  | notFinalState => "last state is not final"
  | sender cause => cause.message "conclude"
  | alreadyConcluded => "channel is already concluded"
  | settlement cause => cause.message
  | contract cause => "settlement contract: " ++ text cause

/-- The participant at a place with the transactor of a key, which has to be that participant's. -/
def sender (channel : Channel) (chainId : Uint256) (index : UInt64) (key : Bytes) :
    Except SenderError (Participant × Transactor) :=
  match channel.participants[index.toNat]? with
  | none => .error (.unknownParticipant index)
  | some participant =>
      match Transactor.ofBytes chainId key with
      | .error _ => .error .invalidPrivateKey
      | .ok transactor =>
          if transactor.address = participant.address then .ok (participant, transactor)
          else .error (.keyMismatch participant.address transactor.address)

variable {ρ ε : Type}

/-- The call that deposits for a participant. The native coin is sent along with the call; other
assets are drawn by the contract. -/
def depositCall (channel : Channel) (adjudicator : Adjudicator ρ ε) (index : UInt64) (key : Bytes)
    (gas : Option Gas) : Except (FundError ε) Call :=
  if !channel.preFundComplete then .error .incompleteState
  else
    match channel.sender adjudicator.chainId index key with
    | .error cause => .error (.sender cause)
    | .ok (participant, signer) =>
        let asset := channel.contract.asset
        match adjudicator.holdings asset channel.id with
        | .error cause => .error (.contract cause)
        | .ok held =>
            let value := if asset = Address.zero then participant.lockedAmount else 0
            .ok (.deposit ⟨participant.address, signer, value, gas⟩ asset channel.id held
              participant.lockedAmount)

/-- Makes the call that the channel gives rise to, and notes on the channel that it went through.
What the adjudicator has against the call is an error of its own. -/
def send {E : Type} (adjudicator : Adjudicator ρ ε) (call : Channel → Except E Call)
    (wrap : ε → E) (note : Channel → Channel) : Action E ρ := do
  let channel ← Action.channel
  let call ← Action.attempt (call channel)
  let receipt ← Action.submit adjudicator wrap call
  Action.update note
  return receipt

/-- Deposits for a participant. -/
def fund (adjudicator : Adjudicator ρ ε) (index : UInt64) (key : Bytes) (gas : Option Gas) :
    Action (FundError ε) ρ :=
  send adjudicator (·.depositCall adjudicator index key gas) .contract
    ({ · with depositSubmitted := true })

/-- The call that settles the channel by its last state, sent by a participant. -/
def concludeCall (channel : Channel) (adjudicator : Adjudicator ρ ε) (index : UInt64) (key : Bytes)
    (signatures : Signatures) (gas : Option Gas) : Except (ConcludeError ε) Call :=
  if channel.concluded then .error .alreadyConcluded
  else if !channel.lastState.isFinal then .error .notFinalState
  else
    match channel.sender adjudicator.chainId index key with
    | .error cause => .error (.sender cause)
    | .ok (participant, signer) =>
        match Settlement.ofState channel.lastState signatures with
        | .error cause => .error (.settlement cause)
        | .ok settlement => .ok (.conclude ⟨participant.address, signer, 0, gas⟩ settlement)

/-- Settles the channel for a participant. -/
def conclude (adjudicator : Adjudicator ρ ε) (index : UInt64) (key : Bytes)
    (signatures : Signatures) (gas : Option Gas) : Action (ConcludeError ε) ρ :=
  send adjudicator (·.concludeCall adjudicator index key signatures gas) .contract
    ({ · with concluded := true })

end DebtChannel.Channel
