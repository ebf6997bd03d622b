import DebtChannel.Proofs.ChannelSound

/-!
# What is true of every state of a channel

A channel holds states in two places, the turns on record and the last state, and there are only
two ways in: the proposal that begins it, and signing a state that was handed in. All the rest moves
states around. Turn one is turn zero under another number, a draft is the last state under another
number, and signing the states of the funding signs what is on record already.

So whatever does not depend on the number of a state, and is true of the first state and of every
state that is handed in and signed, is true of every state that the channel ever holds.
-/

namespace DebtChannel.Channel

variable {ρ ε : Type} {P : State → Prop}

/-- Something is true of every state that the channel holds. -/
structure Holds (P : State → Prop) (channel : Channel) : Prop where
  recorded : ∀ turn entry, channel.signedTurn? turn = some entry → P entry.state
  last : P channel.lastState

/-- It is true of a state under any number, or of none. -/
def IgnoresTurn (P : State → Prop) : Prop := ∀ (state : State) turn, P state → P { state with turn }

theorem holds_create {opening : Opening} {partIndex : UInt64} {config : Config} {channel : Channel}
    (h : create opening partIndex config = .ok channel) (hturn : IgnoresTurn P)
    (hstate : P opening.state) : channel.Holds P := by
  obtain ⟨-, -, rfl⟩ := create_ok h
  refine ⟨fun turn entry hentry => ?_, hstate⟩
  rcases signedTurn?_ofOpening hentry with ⟨-, rfl⟩ | ⟨-, rfl⟩
  · exact hstate
  · exact hturn opening.state 1 hstate

/-! ## One step -/

theorem Holds.entryFor {channel : Channel} (h : channel.Holds P) {state : State} (hstate : P state) :
    P (channel.entryFor state).state := by
  cases hbefore : channel.signedTurn? state.turn with
  | none =>
      rw [Channel.entryFor, hbefore, Option.getD_none]
      exact hstate
  | some before =>
      rw [entryFor_of_signedTurn? hbefore]
      exact h.recorded state.turn before hbefore

theorem Holds.record {channel : Channel} (h : channel.Holds P) {state : State} {index : Nat}
    {sig : Signature} (hstate : P state) : (channel.record state index sig).Holds P where
  recorded turn entry hentry := by
    rcases signedTurn?_record_cases hentry with ⟨-, rfl⟩ | hold
    · exact h.entryFor hstate
    · exact h.recorded turn entry hold
  last := h.last

theorem Holds.advance {channel : Channel} (h : channel.Holds P) {state : State} (hstate : P state) :
    (channel.advance state).Holds P where
  recorded turn entry hentry := by
    rw [signedTurn?_advance] at hentry
    exact h.recorded turn entry hentry
  last := by
    rw [lastState_advance]
    exact hstate

theorem Effect.holds {channel after : Channel} {answer : Answer ρ ε}
    (heffect : Effect channel answer after) (hturn : IgnoresTurn P) (h : channel.Holds P)
    (hsigned : ∀ state sig, answer = .signed state sig → P state) : after.Holds P := by
  cases heffect with
  | failed cause => exact h
  | approved index sig hadmits => exact h.record (hsigned _ sig rfl)
  | signed state index sig hadmits =>
      have hstate := hsigned state sig rfl
      exact (h.record hstate).advance hstate
  | proposed draft hproposes =>
      refine ⟨h.recorded, ?_⟩
      show P draft.state
      rw [hproposes.state_eq]
      exact hturn channel.lastState _ h.last
  | deposited receipt hcomplete => exact ⟨h.recorded, h.last⟩
  | settled receipt hconcluded hfinal => exact ⟨h.recorded, h.last⟩

/-! ## Whole runs -/

section Run

variable {channel : Channel} {operations : List (Adjudicator ρ ε × Operation)}

/-- What is signed without being handed in is on record already. -/
theorem Holds.after (hturn : IgnoresTurn P) {step : Step ρ ε} (hmem : step ∈ channel.run operations)
    (h : step.before.Holds P)
    (hdraft : ∀ draft key sig, step.operation = .signState draft key →
      step.answer = .signed draft.state sig → P draft.state) : step.after.Holds P := by
  refine (effect_of_mem_run hmem).holds hturn h fun state sig hsigned => ?_
  obtain ⟨adjudicator, hstep⟩ := eq_step_operation_of_mem_run hmem
  have hanswer : (step.before.step adjudicator step.operation).answer = .signed state sig := by
    rw [← hstep]
    exact hsigned
  rcases source_of_signed hanswer with ⟨-, -, rfl⟩ | ⟨-, -, rfl⟩ | ⟨draft, key, hoperation, rfl⟩
  · exact h.recorded 0 _ rfl
  · exact h.recorded 1 _ rfl
  · exact hdraft draft key sig hoperation hsigned

theorem Holds.of_mem_run (h : channel.Holds P) (hturn : IgnoresTurn P)
    (hdrafts : ∀ step ∈ channel.run operations, ∀ draft key sig,
      step.operation = .signState draft key → step.answer = .signed draft.state sig →
      P draft.state) :
    ∀ step ∈ channel.run operations, step.before.Holds P ∧ step.after.Holds P :=
  forall_mem_run_of_kept h fun step hmem hbefore => hbefore.after hturn hmem (hdrafts step hmem)

end Run

end DebtChannel.Channel
