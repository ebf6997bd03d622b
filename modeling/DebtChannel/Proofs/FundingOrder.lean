import DebtChannel.Proofs.TurnCounters

/-!
# Whether the two states of the funding are signed in order

A channel is funded in three moves: everyone signs the state before funding, the deposits are made,
everyone signs the state after funding. The deposits wait for the first move, since no call is made
before the state before funding is complete. The third move waits for nothing. The state after
funding is on record from the start, and whoever asks for a signature over it gets one.

Between two moments of a run the order can only be lost by the last missing signature of the state
after funding, because that signature leaves turn zero alone (`Effect.isSupported_of_ne`) and a
complete turn stays complete. So the order holds along a run exactly if that one signature comes
late enough. Once the order is lost it cannot be restored: the latest supported turn is above zero
from then on, a state of turn zero is stale, and with it the only way to complete the state before
funding is closed, and the deposits behind it. `Overtaken` is that dead end; it is left by no step.
-/

namespace DebtChannel.Channel

variable {ρ ε : Type}

/-- The state after funding is complete only after the one before it. -/
def FundedInOrder (channel : Channel) : Prop :=
  channel.postFundComplete = true → channel.preFundComplete = true

theorem fundedInOrder_create {opening : Opening} {partIndex : UInt64} {config : Config}
    {channel : Channel} (h : create opening partIndex config = .ok channel) :
    channel.FundedInOrder := by
  obtain ⟨hnone, -, rfl⟩ := create_ok h
  obtain ⟨-, -, hdefect, -⟩ := initialDefect?_eq_none hnone
  intro hpost
  rw [postFundComplete, isSupported_ofOpening partIndex config.proposalPolicy
    (State.defect?_eq_none_iff.mp hdefect).participants] at hpost
  cases hpost

/-! ## The signature that completes a turn -/

section Completing

variable {channel after : Channel} {answer : Answer ρ ε} {turn : UInt64}

theorem Effect.isSupported_of_ne (heffect : Effect channel answer after)
    (hother : ∀ state sig, answer = .signed state sig → state.turn ≠ turn) :
    after.isSupported turn = channel.isSupported turn := by
  rcases heffect.turns_cases with ⟨hturns, -, -⟩ | ⟨state, index, sig, hanswer, -, hturns, -⟩
  · rw [isSupported, hturns, isSupported]
  · rw [isSupported, hturns]
    exact isSupported_record.trans (if_neg (hother state sig hanswer))

theorem Effect.exists_signed_of_completes (heffect : Effect channel answer after)
    (hbefore : channel.isSupported turn = false) (hafter : after.isSupported turn = true) :
    ∃ state sig, answer = .signed state sig ∧ state.turn = turn := by
  by_cases hother : ∀ state sig, answer = .signed state sig → state.turn ≠ turn
  · rw [heffect.isSupported_of_ne hother, hbefore] at hafter
    cases hafter
  · simpa using hother

theorem Effect.fundedInOrder (heffect : Effect channel answer after) (h : channel.FundedInOrder)
    (hcompletes : channel.postFundComplete = false → after.postFundComplete = true →
      channel.preFundComplete = true) : after.FundedInOrder := by
  intro hpost
  refine heffect.keeps.supported 0 ?_
  cases hbefore : channel.postFundComplete with
  | true => exact h hbefore
  | false => exact hcompletes hbefore hpost

/-- What completes the state after funding leaves the state before it as it was. -/
theorem Effect.preFundComplete_of_completes (heffect : Effect channel answer after)
    (hbefore : channel.postFundComplete = false) (hafter : after.postFundComplete = true) :
    after.preFundComplete = channel.preFundComplete := by
  obtain ⟨signed, made, hanswer, hturn⟩ := heffect.exists_signed_of_completes hbefore hafter
  refine heffect.isSupported_of_ne fun state sig hsigned => ?_
  obtain ⟨rfl, -⟩ := Answer.signed.inj (hanswer.symm.trans hsigned)
  rw [hturn]
  decide

end Completing

/-! ## The dead end -/

/-- Everyone signed a later state, but not the one before funding. -/
structure Overtaken (channel : Channel) : Prop where
  incomplete : channel.preFundComplete = false
  passed : ∃ latest, channel.latestSupported = some latest ∧ 0 < latest

section Overtaken

variable {channel : Channel}

theorem Ordered.overtaken (h : channel.Ordered) (hpost : channel.postFundComplete = true)
    (hpre : channel.preFundComplete = false) : channel.Overtaken := by
  obtain ⟨latest, hlatest, hle⟩ := h.supported_le 1 hpost
  exact ⟨hpre, latest, hlatest, UInt64.lt_of_lt_of_le (by decide) hle⟩

theorem Overtaken.step (h : channel.Overtaken) (adjudicator : Adjudicator ρ ε)
    (operation : Operation) : (channel.step adjudicator operation).after.Overtaken := by
  obtain ⟨latest, hlatest, hlt⟩ := h.passed
  obtain ⟨higher, hhigher, hle⟩ := (keeps_step channel adjudicator operation).latest latest hlatest
  have hturn := (frozen_step adjudicator operation hlatest).1 0 hlt
  refine ⟨?_, higher, hhigher, UInt64.lt_of_lt_of_le hlt hle⟩
  rw [preFundComplete, isSupported_eq_any, hturn]
  exact h.incomplete

/-- With whatever key, the state before funding is not signed any more. -/
theorem Overtaken.approveInit_eq (h : channel.Overtaken) (hsound : channel.Sound) {latest : UInt64}
    (hlatest : channel.latestSupported = some latest) (key : Bytes) :
    (approveInit key).outcome channel = .error
      (if (PrivateKey.ofBytes key).isOk then .staleState 0 latest else .invalidPrivateKey) := by
  have hincomplete : channel.turns.preFund.isComplete = false := h.incomplete
  have hentry := hsound.entries 0 channel.turns.preFund rfl
  obtain ⟨passed, hpassed, hlt⟩ := h.passed
  obtain rfl := Option.some.inj (hlatest.symm.trans hpassed)
  have hstale : channel.refusal? channel.turns.preFund.state = some (.staleState 0 latest) := by
    rw [refusal?, if_neg (by simp [State.hasFixedPart, hentry.fixed_eq]), hlatest,
      Option.filter_some, hentry.turn_eq, if_pos (by simpa using hlt)]
  rw [outcome_approveInit, hincomplete, if_neg (by decide), outcome_sign, hstale]
  cases PrivateKey.ofBytes key <;> rfl

theorem Overtaken.depositCall_eq (h : channel.Overtaken) (adjudicator : Adjudicator ρ ε)
    (index : UInt64) (key : Bytes) (gas : Option Gas) :
    channel.depositCall adjudicator index key gas = .error .incompleteState := by
  rw [depositCall, h.incomplete]
  rfl

theorem Overtaken.answers (h : channel.Overtaken) (hsound : channel.Sound) {latest : UInt64}
    (hlatest : channel.latestSupported = some latest) (adjudicator : Adjudicator ρ ε) :
    (∀ key, (channel.step adjudicator (.approveInit key)).answer = .failed (.sign
      (if (PrivateKey.ofBytes key).isOk then .staleState 0 latest else .invalidPrivateKey))) ∧
    (∀ index key gas,
      (channel.step adjudicator (.fund index key gas)).answer = .failed (.fund .incompleteState) ∧
      (channel.step adjudicator (.fund index key gas)).calls = []) := by
  refine ⟨fun key => ?_, fun index key gas => ?_⟩
  · rw [step_approveInit, h.approveInit_eq hsound hlatest]
    rfl
  · rw [step_fund_of_error (h.depositCall_eq adjudicator index key gas)]
    exact ⟨rfl, rfl⟩

end Overtaken

/-! ## Whole runs -/

/-- Along a run the state after funding is complete only after the one before it, exactly if nobody
gives the last signature over it while the one before is incomplete. If somebody does, then from
there on, whatever is done, the state before funding stays incomplete, signing it fails, as stale
with every key there is, and no deposit is made. -/
theorem run_fundedInOrder_iff {opening : Opening} {partIndex : UInt64} {config : Config}
    {channel : Channel} (h : create opening partIndex config = .ok channel)
    (operations : List (Adjudicator ρ ε × Operation)) :
    ((∀ step ∈ channel.run operations, step.after.FundedInOrder) ↔
      ∀ step ∈ channel.run operations, step.before.postFundComplete = false →
        step.after.postFundComplete = true → step.before.preFundComplete = true) ∧
    (∀ step ∈ channel.run operations, step.after.postFundComplete = true →
      step.after.preFundComplete = false →
      ∀ later : List (Adjudicator ρ ε × Operation), ∀ next ∈ step.after.run later,
        next.after.preFundComplete = false ∧
        (∀ key, next.operation = .approveInit key →
          ∃ latest, next.before.latestSupported = some latest ∧ next.answer = .failed (.sign
            (if (PrivateKey.ofBytes key).isOk then .staleState 0 latest
              else .invalidPrivateKey))) ∧
        (∀ index key gas, next.operation = .fund index key gas →
          next.answer = .failed (.fund .incompleteState) ∧ next.calls = [])) := by
  refine ⟨⟨fun hall step hmem hbefore hafter => ?_, fun hcompletes step hmem => ?_⟩, ?_⟩
  · rw [← (effect_of_mem_run hmem).preFundComplete_of_completes hbefore hafter]
    exact hall step hmem hafter
  · exact (forall_mem_run_of_kept (fundedInOrder_create h)
      (fun step hmem hbefore =>
        (effect_of_mem_run hmem).fundedInOrder hbefore (hcompletes step hmem)) step hmem).2
  · intro step hmem hpost hpre later next hnext
    have hreachable := (reachable_of_mem_run (.create h) hmem).2
    obtain ⟨hbefore, -⟩ :=
      forall_mem_run (P := Overtaken)
        (fun _ adjudicator operation hc => hc.step adjudicator operation)
        (hreachable.ordered.overtaken hpost hpre) next hnext
    obtain ⟨adjudicator, hstep⟩ := eq_step_operation_of_mem_run hnext
    obtain ⟨latest, hlatest, -⟩ := hbefore.passed
    have hsound := (reachable_of_mem_run hreachable hnext).1.sound
    obtain ⟨happrove, hfund⟩ := hbefore.answers hsound hlatest adjudicator
    refine ⟨?_, fun key hkey => ⟨latest, hlatest, ?_⟩, fun index key gas hkey => ?_⟩
    · rw [hstep]
      exact (hbefore.step adjudicator next.operation).incomplete
    · rw [hkey] at hstep
      rw [hstep]
      exact happrove key
    · rw [hkey] at hstep
      rw [hstep]
      exact hfund index key gas

/-- The member of the solo channel begins with the state after funding. -/
def fundedFirst : Step Unit Unit := solo.step accepting (.approveFunding soloKey)

theorem complete_fundedFirst :
    fundedFirst.after.postFundComplete = true ∧ fundedFirst.after.preFundComplete = false := by
  decide +kernel

/-- Nothing keeps the last signature over the state after funding from coming first. -/
theorem post_fund_is_completed_before_pre_fund :
    Reachable (solo.step accepting (.approveFunding soloKey)).after ∧
    (solo.step accepting (.approveFunding soloKey)).after.postFundComplete = true ∧
    (solo.step accepting (.approveFunding soloKey)).after.preFundComplete = false :=
  ⟨.step accepting _ (.create create_solo), complete_fundedFirst⟩

/-- After that the member can neither sign the state before funding nor make its deposit, now or
later. -/
theorem solo_is_overtaken_by_fundedFirst :
    fundedFirst.after.postFundComplete = true ∧ fundedFirst.after.preFundComplete = false ∧
    ∀ later : List (Adjudicator Unit Unit × Operation), ∀ next ∈ fundedFirst.after.run later,
      next.after.preFundComplete = false ∧
      (next.operation = .fund 0 soloKey none → next.answer = .failed (.fund .incompleteState)) := by
  obtain ⟨hpost, hpre⟩ := complete_fundedFirst
  have hmem : fundedFirst ∈ solo.run [(accepting, .approveFunding soloKey)] :=
    List.mem_singleton_self _
  refine ⟨hpost, hpre, fun later next hnext => ?_⟩
  obtain ⟨hincomplete, -, hfund⟩ :=
    (run_fundedInOrder_iff create_solo _).2 fundedFirst hmem hpost hpre later next hnext
  exact ⟨hincomplete, fun hdeposit => (hfund 0 soloKey none hdeposit).1⟩

end DebtChannel.Channel
