import DebtChannel.Channel.Operation

/-!
# As a whole or not at all

Nothing is taken back when an action stops with an error. That an operation leaves the channel as it
was when it fails is therefore a matter of the order of its parts: first it looks, which may stop
it, and then it writes, which may not. The rules for `>>=` are as many as this takes. A part that
only `Reads` may stand before an atomic rest, and a part that `Writes`, which does not fail, may
stand after an atomic beginning. Two atomic parts need not make an atomic whole, since the second
one may stop after the first one has written.

What an atomic action does is a function of the channel, its `outcome`, and the rest of the theory
speaks of that. The two operations that reach the adjudicator are not atomic, because a call that
was turned down has been made all the same; for them the cases are told apart
(`perform_send_cases`).
-/

namespace DebtChannel

namespace Action

variable {E α β : Type} {action : Action E α} {next : α → Action E β}

/-- What an action comes to on a channel, as if an error took everything back. -/
def outcome (action : Action E α) (channel : Channel) : Except E (α × Channel) :=
  match action.run ⟨channel, []⟩ with
  | .ok value left => .ok (value, left.channel)
  | .error cause _ => .error cause

/-- The action makes no calls, and changes nothing if it stops with an error. -/
def Atomic (action : Action E α) : Prop :=
  ∀ session, action.run session = match action.outcome session.channel with
    | .ok (value, after) => .ok value { session with channel := after }
    | .error cause => .error cause session

/-- The action changes nothing, and what it comes to is found in the channel. -/
def Reads (action : Action E α) (found : Channel → Except E α) : Prop :=
  ∀ session, action.run session = (attempt (found session.channel)).run session

/-- The action changes the channel and comes to a value. -/
def Writes (action : Action E α) (value : α) (change : Channel → Channel) : Prop :=
  ∀ session, action.run session = .ok value { session with channel := change session.channel }

theorem run_bind (action : Action E α) (next : α → Action E β) (session : Session) :
    (action >>= next).run session = match action.run session with
      | .ok value left => (next value).run left
      | .error cause left => .error cause left := by
  show EStateM.bind action next session = _
  unfold EStateM.bind EStateM.run
  cases action session <;> rfl

-- What was written before an error stays.
example (channel : Channel) :
    (do update ({ · with concluded := true }); refuse (some ())).run ⟨channel, []⟩
      = .error () ⟨{ channel with concluded := true }, []⟩ := rfl

/-! ## Reading -/

theorem reads_channel : Reads (channel : Action E Channel) .ok := fun _ => rfl

theorem reads_attempt (result : Except E α) : Reads (attempt result) fun _ => result := fun _ => rfl

theorem reads_refuse (cause? : Option E) :
    Reads (refuse cause?) fun _ => cause?.elim (.ok ()) .error := by
  intro session
  cases cause? <;> rfl

theorem Reads.run_bind {found : Channel → Except E α} (h : Reads action found)
    (next : α → Action E β) (session : Session) :
    (action >>= next).run session = match found session.channel with
      | .ok value => (next value).run session
      | .error cause => .error cause session := by
  rw [Action.run_bind, h session]
  cases found session.channel <;> rfl

theorem Reads.outcome_bind {found : Channel → Except E α} (h : Reads action found)
    (next : α → Action E β) (channel : Channel) :
    (action >>= next).outcome channel
      = found channel >>= fun value => (next value).outcome channel := by
  rw [outcome, h.run_bind]
  cases found channel <;> rfl

theorem outcome_channel_bind (next : Channel → Action E β) (channel : Channel) :
    (Action.channel >>= next).outcome channel = (next channel).outcome channel :=
  reads_channel.outcome_bind next channel

/-- Whatever stops an action before it begins to write leaves no trace. -/
theorem Reads.atomic_bind {found : Channel → Except E α} (h : Reads action found)
    (hnext : ∀ value, (next value).Atomic) : (action >>= next).Atomic := by
  intro session
  rw [h.run_bind, h.outcome_bind]
  cases found session.channel with
  | error cause => rfl
  | ok value => exact hnext value session

/-! ## Writing -/

theorem writes_update (change : Channel → Channel) (value : α) :
    Writes (E := E) (do update change; return value) value change := fun _ => rfl

theorem Writes.outcome_eq {value : α} {change : Channel → Channel} (h : Writes action value change)
    (channel : Channel) : action.outcome channel = .ok (value, change channel) := by
  rw [outcome, h]

theorem Writes.atomic {value : α} {change : Channel → Channel} (h : Writes action value change) :
    action.Atomic := by
  intro session
  rw [h session, h.outcome_eq]

variable {value : α → β} {change : α → Channel → Channel}

theorem Atomic.outcome_bind (h : action.Atomic)
    (hnext : ∀ found, Writes (next found) (value found) (change found)) (channel : Channel) :
    (action >>= next).outcome channel
      = (action.outcome channel).map fun made => (value made.1, change made.1 made.2) := by
  rw [outcome, run_bind, h]
  cases action.outcome channel with
  | error cause => rfl
  | ok made => simp only [hnext made.1 _, Except.map]

/-- What is written after an atomic action cannot stop it any more. -/
theorem Atomic.bind_writes (h : action.Atomic)
    (hnext : ∀ found, Writes (next found) (value found) (change found)) :
    (action >>= next).Atomic := by
  intro session
  rw [run_bind, h session, h.outcome_bind hnext]
  cases action.outcome session.channel with
  | error cause => rfl
  | ok made => exact hnext made.1 _

end Action

namespace Channel

open DebtChannel.Action

/-! ## Signing -/

/-- What is on record for the turn of a state, as it is before a signature is added. -/
def entryFor (channel : Channel) (state : State) : SignedTurn :=
  (channel.signedTurn? state.turn).getD (.ofState state)

/-- The channel with an entry on record for the turn of a state. -/
def withEntry (channel : Channel) (state : State) (entry : SignedTurn) : Channel :=
  { channel with
    turns := channel.turns.put state.turn entry
    latestSupported :=
      if entry.isComplete && channel.latestSupported.all (· < state.turn) then some state.turn
      else channel.latestSupported }

/-- The channel with a signature on record. -/
def record (channel : Channel) (state : State) (index : Nat) (sig : Signature) : Channel :=
  channel.withEntry state ((channel.entryFor state).addSignature index sig)

theorem signedTurn?_enter (channel : Channel) (state : State) :
    (channel.enter state).signedTurn? state.turn = some (channel.entryFor state) := by
  unfold enter entryFor
  cases h : channel.signedTurn? state.turn with
  | none => exact (SignedTurns.get?_put _ _ _ _).trans (if_pos rfl)
  | some entry => exact h

theorem addSignature_enter (channel : Channel) (state : State) (index : Nat) (sig : Signature) :
    (channel.enter state).addSignature state.turn index sig
      = { channel with
          turns := channel.turns.put state.turn
            ((channel.entryFor state).addSignature index sig) } := by
  rw [addSignature, signedTurn?_enter, Option.elim_some]
  unfold enter
  cases channel.signedTurn? state.turn with
  | some entry => rfl
  | none =>
      rw [if_neg (by decide)]
      simp only [SignedTurns.put_put]

theorem noteSupport_put (channel : Channel) (state : State) (entry : SignedTurn) :
    ({ channel with turns := channel.turns.put state.turn entry } : Channel).noteSupport state.turn
      = channel.withEntry state entry := by
  rw [noteSupport, isSupported, SignedTurns.isSupported, SignedTurns.get?_put, if_pos rfl,
    Option.any_some, withEntry]
  split <;> rfl

/-- The three changes that signing makes, one after the other, put the signature on record. -/
theorem noteSupport_addSignature_enter (channel : Channel) (state : State) (index : Nat)
    (sig : Signature) :
    ((channel.enter state).addSignature state.turn index sig).noteSupport state.turn
      = channel.record state index sig := by
  rw [addSignature_enter, noteSupport_put, record]

/-- What signing writes. -/
theorem writes_record (state : State) (index : Nat) (sig : Signature) :
    Writes (do
      update (E := SignError) (·.enter state)
      update (·.addSignature state.turn index sig)
      update (·.noteSupport state.turn)
      return sig) sig (·.record state index sig) := by
  intro session
  show _ = EStateM.Result.ok sig { session with channel := session.channel.record state index sig }
  rw [← noteSupport_addSignature_enter]
  rfl

/-- The key, the channel, what speaks against the state and the signature itself are looked at
before anything is put on record. -/
theorem sign_atomic (state : State) (key : Bytes) : (sign state key).Atomic :=
  (reads_attempt _).atomic_bind fun _ => reads_channel.atomic_bind fun _ =>
    (reads_refuse _).atomic_bind fun _ => (reads_attempt _).atomic_bind fun (sig, index) =>
      (writes_record state index sig).atomic

theorem outcome_sign (channel : Channel) (state : State) (key : Bytes) :
    (sign state key).outcome channel = do
      let secret ← (PrivateKey.ofBytes key).mapError fun _ => .invalidPrivateKey
      (channel.refusal? state).elim (.ok ()) .error
      let (sig, index) ← signatureBy state secret
      return (sig, channel.record state index sig) := by
  rw [sign, (reads_attempt _).outcome_bind]
  refine congrArg _ (funext fun secret => ?_)
  rw [outcome_channel_bind, (reads_refuse _).outcome_bind]
  refine congrArg _ (funext fun _ => ?_)
  rw [(reads_attempt _).outcome_bind]
  exact congrArg _ (funext fun (sig, index) => (writes_record state index sig).outcome_eq channel)

theorem signAsLast_atomic (state : State) (key : Bytes) : (signAsLast state key).Atomic :=
  (sign_atomic state key).bind_writes (writes_update (·.advance state))

theorem outcome_signAsLast (channel : Channel) (state : State) (key : Bytes) :
    (signAsLast state key).outcome channel
      = ((sign state key).outcome channel).map fun made => (made.1, made.2.advance state) :=
  (sign_atomic state key).outcome_bind (writes_update (·.advance state)) channel

theorem approveInit_atomic (key : Bytes) : (approveInit key).Atomic :=
  reads_channel.atomic_bind fun _ => (reads_refuse _).atomic_bind fun _ => sign_atomic _ key

theorem outcome_approveInit (channel : Channel) (key : Bytes) :
    (approveInit key).outcome channel
      = if channel.turns.preFund.isComplete then .error .alreadyComplete
        else (sign channel.turns.preFund.state key).outcome channel := by
  rw [approveInit, outcome_channel_bind, (reads_refuse _).outcome_bind]
  split <;> rfl

theorem approveFunding_atomic (key : Bytes) : (approveFunding key).Atomic :=
  reads_channel.atomic_bind fun _ => (reads_refuse _).atomic_bind fun _ => signAsLast_atomic _ key

theorem outcome_approveFunding (channel : Channel) (key : Bytes) :
    (approveFunding key).outcome channel
      = if channel.turns.postFund.isComplete then .error .alreadyComplete
        else (signAsLast channel.turns.postFund.state key).outcome channel := by
  rw [approveFunding, outcome_channel_bind, (reads_refuse _).outcome_bind]
  split <;> rfl

/-! ## Proposing -/

theorem writes_propose (draft : Draft) (next : UInt64) :
    Writes (do
      update (E := ProposeError) ({ · with lastState := draft.state })
      update ({ · with lastTurn := next })
      return draft) draft ({ · with lastState := draft.state, lastTurn := next }) := fun _ => rfl

theorem proposeState_atomic : proposeState.Atomic :=
  reads_channel.atomic_bind fun _ => (reads_refuse _).atomic_bind fun _ =>
    (reads_attempt _).atomic_bind fun draft => (writes_propose draft _).atomic

theorem outcome_proposeState (channel : Channel) :
    proposeState.outcome channel = do
      channel.proposalRefusal?.elim (.ok ()) .error
      let draft ← (Draft.ofState { channel.lastState with turn := channel.lastTurn + 1 }).mapError
        .decode
      return (draft,
        { channel with lastState := draft.state, lastTurn := channel.lastTurn + 1 }) := by
  rw [proposeState, outcome_channel_bind, (reads_refuse _).outcome_bind]
  refine congrArg _ (funext fun _ => ?_)
  rw [(reads_attempt _).outcome_bind]
  exact congrArg _ (funext fun draft => (writes_propose draft _).outcome_eq channel)

/-! ## The steps of atomic actions -/

section Steps

variable {ρ ε : Type} {E α : Type}

/-- The step of an operation that is done as a whole or not at all. -/
def stepOf (channel : Channel) (operation : Operation) (done : α → Answer ρ ε)
    (failed : E → Failure ε) : Except E (α × Channel) → Step ρ ε
  | .ok (value, after) => ⟨channel, operation, done value, [], after⟩
  | .error cause => ⟨channel, operation, .failed (failed cause), [], channel⟩

theorem perform_eq_stepOf {action : Action E α} (h : action.Atomic) (channel : Channel)
    (operation : Operation) (done : α → Answer ρ ε) (failed : E → Failure ε) :
    channel.perform operation action done failed
      = channel.stepOf operation done failed (action.outcome channel) := by
  rw [perform, h]
  cases action.outcome channel <;> rfl

variable (channel : Channel) (adjudicator : Adjudicator ρ ε)

theorem step_approveInit (key : Bytes) :
    channel.step adjudicator (.approveInit key)
      = channel.stepOf (.approveInit key) (.signed channel.turns.preFund.state) .sign
          ((approveInit key).outcome channel) :=
  perform_eq_stepOf (approveInit_atomic key) ..

theorem step_approveFunding (key : Bytes) :
    channel.step adjudicator (.approveFunding key)
      = channel.stepOf (.approveFunding key) (.signed channel.turns.postFund.state) .sign
          ((approveFunding key).outcome channel) :=
  perform_eq_stepOf (approveFunding_atomic key) ..

theorem step_signState (draft : Draft) (key : Bytes) :
    channel.step adjudicator (.signState draft key)
      = channel.stepOf (.signState draft key) (.signed draft.state) .sign
          ((signAsLast draft.state key).outcome channel) :=
  perform_eq_stepOf (signAsLast_atomic draft.state key) ..

theorem step_proposeState :
    channel.step adjudicator .proposeState
      = channel.stepOf .proposeState .proposed .propose (proposeState.outcome channel) :=
  perform_eq_stepOf proposeState_atomic ..

end Steps

/-! ## The steps that make a call -/

section Calls

variable {ρ ε E : Type} (adjudicator : Adjudicator ρ ε) (call : Channel → Except E Call)
  (wrap : ε → E) (note : Channel → Channel)

theorem run_submit (made : Call) (session : Session) :
    (submit adjudicator wrap made).run session = match adjudicator.submit made with
      | .error cause => .error (wrap cause) { session with calls := session.calls ++ [made] }
      | .ok receipt => .ok receipt { session with calls := session.calls ++ [made] } := by
  rw [submit, Action.run_bind]
  show (attempt ((adjudicator.submit made).mapError wrap)).run _ = _
  cases adjudicator.submit made <;> rfl

/-- A call that was made stays made, whatever the adjudicator has to say to it; the channel only
changes if that is nothing. -/
theorem run_send (session : Session) :
    (send adjudicator call wrap note).run session = match call session.channel with
      | .error cause => .error cause session
      | .ok made =>
          match adjudicator.submit made with
          | .error cause => .error (wrap cause) { session with calls := session.calls ++ [made] }
          | .ok receipt => .ok receipt ⟨note session.channel, session.calls ++ [made]⟩ := by
  rw [send, reads_channel.run_bind]
  show (attempt (call session.channel) >>= _).run session = _
  rw [(reads_attempt _).run_bind]
  cases call session.channel with
  | error cause => rfl
  | ok made =>
      simp only [Action.run_bind, run_submit]
      cases adjudicator.submit made <;> rfl

theorem perform_send (channel : Channel) (operation : Operation) (done : ρ → Answer ρ ε)
    (failed : E → Failure ε) :
    channel.perform operation (send adjudicator call wrap note) done failed
      = match call channel with
        | .error cause => ⟨channel, operation, .failed (failed cause), [], channel⟩
        | .ok made =>
            match adjudicator.submit made with
            | .error cause => ⟨channel, operation, .failed (failed (wrap cause)), [made], channel⟩
            | .ok receipt => ⟨channel, operation, done receipt, [made], note channel⟩ := by
  rw [perform, run_send]
  cases call channel with
  | error cause => rfl
  | ok made =>
      simp only []
      cases adjudicator.submit made <;> rfl

/-- No call is made, or it is turned down by the adjudicator, or it goes through. Only in the last
case does the channel change. -/
theorem perform_send_cases (channel : Channel) (operation : Operation) (done : ρ → Answer ρ ε)
    (failed : E → Failure ε) :
    (∃ cause, call channel = .error cause ∧
      channel.perform operation (send adjudicator call wrap note) done failed
        = ⟨channel, operation, .failed (failed cause), [], channel⟩) ∨
    (∃ made cause, call channel = .ok made ∧ adjudicator.submit made = .error cause ∧
      channel.perform operation (send adjudicator call wrap note) done failed
        = ⟨channel, operation, .failed (failed (wrap cause)), [made], channel⟩) ∨
    (∃ made receipt, call channel = .ok made ∧ adjudicator.submit made = .ok receipt ∧
      channel.perform operation (send adjudicator call wrap note) done failed
        = ⟨channel, operation, done receipt, [made], note channel⟩) := by
  rw [perform_send]
  cases call channel with
  | error cause => exact .inl ⟨cause, rfl, rfl⟩
  | ok made =>
      cases hsubmit : adjudicator.submit made with
      | error cause => exact .inr (.inl ⟨made, cause, rfl, hsubmit, by simp only [hsubmit]⟩)
      | ok receipt => exact .inr (.inr ⟨made, receipt, rfl, hsubmit, by simp only [hsubmit]⟩)

theorem mem_calls_send {adjudicator : Adjudicator ρ ε} {call : Channel → Except E Call}
    {wrap : ε → E} {note : Channel → Channel} {channel : Channel} {operation : Operation}
    {done : ρ → Answer ρ ε} {failed : E → Failure ε} {made : Call}
    (h : made ∈ (channel.perform operation (send adjudicator call wrap note) done failed).calls) :
    call channel = .ok made := by
  rcases perform_send_cases adjudicator call wrap note channel operation done failed with
    ⟨cause, -, heq⟩ | ⟨only, cause, hcall, -, heq⟩ | ⟨only, receipt, hcall, -, heq⟩
  · rw [heq] at h
    exact absurd h List.not_mem_nil
  · rw [heq] at h
    rw [hcall, List.mem_singleton.mp h]
  · rw [heq] at h
    rw [hcall, List.mem_singleton.mp h]

end Calls

end Channel

end DebtChannel
