import DebtChannel.Adjudicator.Basic
import DebtChannel.Channel.Basic

/-!
# Actions on a channel

An operation works on its channel in place: it looks at it, changes one thing after the other, hands
calls to the adjudicator, and may stop with an error at any point of this. Nothing is taken back
then. What an action leaves behind is there whether it came to a value or to an error, and includes
everything that was done before it stopped.
-/

namespace DebtChannel

/-- What an action works on. -/
structure Session where
  /-- The channel, as it is by now. -/
  channel : Channel
  /-- The calls that were handed to the adjudicator, the first one first. -/
  calls : List Call

/-- Something done on a session, which it changes on the way to a value or to an error. -/
abbrev Action (E : Type) : Type → Type := EStateM E Session

namespace Action

variable {E α : Type}

/-- The channel as it is by now. -/
def channel : Action E Channel := return (← get).channel

/-- Goes on with the value of a result, or stops with its error. -/
def attempt : Except E α → Action E α
  | .ok value => pure value
  | .error cause => throw cause

/-- Stops with the reason not to go on, if there is one. -/
def refuse : Option E → Action E Unit
  | none => pure ()
  | some cause => throw cause

/-- Changes the channel. -/
def update (change : Channel → Channel) : Action E Unit :=
  modify fun session => { session with channel := change session.channel }

/-- Hands a call to the adjudicator and goes on with the receipt, or stops with the error, which is
`wrap` of what the adjudicator has against the call. -/
def submit {ρ ε : Type} (adjudicator : Adjudicator ρ ε) (wrap : ε → E) (call : Call) :
    Action E ρ := do
  modify fun session => { session with calls := session.calls ++ [call] }
  attempt ((adjudicator.submit call).mapError wrap)

end Action

end DebtChannel
