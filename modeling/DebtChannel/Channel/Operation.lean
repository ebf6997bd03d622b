import DebtChannel.Channel.Submission
import DebtChannel.Channel.Signing

/-!
# Operations of a channel, one after the other

All that can be done with a channel, as data: six operations, each with its arguments. `step` runs
one of them while the adjudicator gives certain answers, and says what came of it, which calls went
out and what the channel is afterwards. `run` does so for a whole list, failed operations included,
and keeps every step, so that statements about the life of a channel are statements about the list
of its steps.
-/

namespace DebtChannel.Channel

/-- Something that can be done with a channel. -/
inductive Operation where
  /-- Sign the state before funding. -/
  | approveInit (key : Bytes)
  /-- Deposit for a participant. -/
  | fund (index : UInt64) (key : Bytes) (gas : Option Gas)
  /-- Sign the state after funding. -/
  | approveFunding (key : Bytes)
  /-- Have the next turn handed out. -/
  | proposeState
  /-- Sign the state of a draft. -/
  | signState (draft : Draft) (key : Bytes)
  /-- Settle the channel for a participant, with signatures over the last state. -/
  | conclude (index : UInt64) (key : Bytes) (signatures : Signatures) (gas : Option Gas)
deriving DecidableEq

/-- Why an operation came to nothing. -/
inductive Failure (ε : Type) where
  /-- A state was not signed. -/
  | sign (cause : SignError)
  /-- No turn was handed out. -/
  | propose (cause : ProposeError)
  /-- No deposit was made. -/
  | fund (cause : FundError ε)
  /-- The channel was not settled. -/
  | conclude (cause : ConcludeError ε)
deriving DecidableEq

/-- What the failure says to a reader, in the words that `text` finds for the adjudicator's
errors. -/
def Failure.message {ε : Type} (text : ε → String) : Failure ε → String
  | sign cause => cause.message
  | propose cause => cause.message
  | fund cause => cause.message text
  | conclude cause => cause.message text

/-- What came of an operation. -/
inductive Answer (ρ ε : Type) where
  /-- The state was signed. -/
  | signed (state : State) (sig : Signature)
  /-- The next turn was handed out, with a draft of it. -/
  | proposed (draft : Draft)
  /-- The deposit was made. -/
  | deposited (receipt : ρ)
  /-- The channel was settled. -/
  | settled (receipt : ρ)
  /-- Nothing. -/
  | failed (cause : Failure ε)
deriving DecidableEq

/-- An operation that was run. -/
structure Step (ρ ε : Type) where
  /-- The channel before. -/
  before : Channel
  /-- The operation. -/
  operation : Operation
  /-- What came of it. -/
  answer : Answer ρ ε
  /-- The calls that reached the adjudicator. -/
  calls : List Call
  /-- The channel afterwards. -/
  after : Channel

variable {ρ ε : Type}

/-- The step of an action, which begins with no calls made. -/
def perform {E α : Type} (channel : Channel) (operation : Operation) (action : Action E α)
    (done : α → Answer ρ ε) (failed : E → Failure ε) : Step ρ ε :=
  match action.run ⟨channel, []⟩ with
  | .ok value left => ⟨channel, operation, done value, left.calls, left.channel⟩
  | .error cause left => ⟨channel, operation, .failed (failed cause), left.calls, left.channel⟩

/-- Runs an operation while the adjudicator gives certain answers. -/
def step (channel : Channel) (adjudicator : Adjudicator ρ ε) (operation : Operation) : Step ρ ε :=
  match operation with
  | .approveInit key =>
      channel.perform operation (approveInit key) (.signed channel.turns.preFund.state) .sign
  | .approveFunding key =>
      channel.perform operation (approveFunding key) (.signed channel.turns.postFund.state) .sign
  | .signState draft key =>
      channel.perform operation (signState draft key) (.signed draft.state) .sign
  | .proposeState => channel.perform operation proposeState .proposed .propose
  | .fund index key gas =>
      channel.perform operation (fund adjudicator index key gas) .deposited .fund
  | .conclude index key signatures gas =>
      channel.perform operation (conclude adjudicator index key signatures gas) .settled .conclude

/-- Runs operations one after the other, each with the answers that the adjudicator gives at its
time. -/
def run (channel : Channel) : List (Adjudicator ρ ε × Operation) → List (Step ρ ε)
  | [] => []
  | (adjudicator, operation) :: rest =>
      let first := channel.step adjudicator operation
      first :: first.after.run rest

/-- The channel after the steps of a run that began with it. -/
def afterAll (channel : Channel) (steps : List (Step ρ ε)) : Channel :=
  steps.getLast?.elim channel Step.after

end DebtChannel.Channel
