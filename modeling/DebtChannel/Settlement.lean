import DebtChannel.Signature.Basic
import DebtChannel.State.Hash
import Std.Data.ExtTreeMap

/-!
# Settling a channel

A channel is settled by one final state with the signatures of all participants. The adjudicator
takes the signatures in the order of the participants, so they are looked up by account and packed
one by one; where one is missing, the zero signature keeps the place. Signatures of accounts that
are no participants are left out.
-/

namespace DebtChannel

/-- Signatures by the account that made them. -/
abbrev Signatures := Std.ExtTreeMap Address Signature

/-- What the adjudicator needs to settle a channel. -/
structure Settlement where
  /-- The turn of the final state. -/
  largestTurn : UInt64
  /-- The fixed part of the channel. -/
  fixedPart : FixedPart
  /-- The data of the final state. -/
  appData : Bytes
  /-- The bytes of its outcome. -/
  outcomeBytes : Bytes
  /-- How many states are handed in. -/
  numStates : UInt8
  /-- For each participant, which of the states it signed. -/
  whoSignedWhat : List UInt8
  /-- For each participant, its signature or the zero signature. -/
  signatures : List Signature
deriving DecidableEq

namespace Settlement

/-- Why a channel cannot be settled by a state. -/
inductive Error where
  /-- The state is not final. -/
  | notFinalState (turn : UInt64)
deriving DecidableEq

/-- What the error says to a reader. -/
def Error.message : Error → String
  | notFinalState turn => "state of turn " ++ toString turn.toNat ++ " is not final"

/-- The settlement by a state and signatures over it. -/
def ofState (state : State) (signatures : Signatures) : Except Error Settlement :=
  if state.isFinal then
    .ok {
      largestTurn := state.turn
      fixedPart := state.toFixedPart
      appData := state.appData
      outcomeBytes := Outcome.encode state.outcome
      numStates := 1
      whoSignedWhat := state.participants.map fun _ => 0
      signatures := state.participants.map fun account => signatures.getD account .zero }
  else .error (.notFinalState state.turn)

/-- The places of the participants whose signature is missing. -/
def missingSigners (settlement : Settlement) : List Nat :=
  settlement.signatures.zipIdx.filterMap fun (sig, index) => if sig.isZero then some index else none

end Settlement

end DebtChannel
