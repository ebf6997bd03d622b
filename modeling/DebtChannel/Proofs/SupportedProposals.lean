import DebtChannel.Proofs.HandedOutTurns

/-!
# What a strict channel proposes upon

Under the policy that asks for support, no turn is handed out before everyone signed the one
before it. The test behind this looks at a counter: it asks whether the last turn handed out is
supported. That counter can be ahead of the last state, and it is the last state that a draft is
made from, so on its face the test says nothing of the state that the next turn builds on.

It does, because the counters hem each other in. A supported turn is at most the latest supported
one, which is at most the turn of the last state, which is at most the last turn handed out
(`Ordered`). If the last of these is supported itself, the chain closes and all are the same turn.
From there `Counted` leads on to the record: what everyone signed for the turn of the last state is
the last state. The policy is that of the channel for good, since no operation touches it.
-/

namespace DebtChannel.Channel

variable {ρ ε : Type}

/-- If the last turn handed out is supported, all counters show that turn. -/
theorem Ordered.eq_of_supported_lastTurn {channel : Channel} (h : channel.Ordered)
    (hsupported : channel.isSupported channel.lastTurn = true) :
    channel.latestSupported = some channel.lastTurn ∧
      channel.lastState.turn = channel.lastTurn := by
  obtain ⟨latest, hlatest, hle⟩ := h.supported_le channel.lastTurn hsupported
  have hlast : latest ≤ channel.lastState.turn := h.latest_le latest hlatest
  -- The chain from the last turn handed out back to itself.
  have hback : channel.lastState.turn ≤ channel.lastTurn := h.lastState_le
  refine ⟨?_, UInt64.le_antisymm hback (UInt64.le_trans hle hlast)⟩
  rw [hlatest, UInt64.le_antisymm (UInt64.le_trans hlast hback) hle]

/-- Whenever a channel with the strict policy hands out a turn, the turn of its last state was the
latest supported one just before, with the hash of the last state on record for it and over that
hash the signature of every participant. The draft is this last state with the turn right after. -/
theorem strict_proposals_build_on_support {opening : Opening} {partIndex : UInt64} {config : Config}
    {channel : Channel} (h : create opening partIndex config = .ok channel)
    (hpolicy : config.proposalPolicy = .requireSupported)
    (operations : List (Adjudicator ρ ε × Operation)) :
    ∀ step ∈ channel.run operations, ∀ draft, step.answer = .proposed draft →
      step.before.latestSupported = some step.before.lastState.turn ∧
      (∃ entry, step.before.signedTurn? step.before.lastState.turn = some entry ∧
        entry.hash = step.before.lastState.hash ∧ entry.isComplete = true ∧
        ∀ (index : Nat) (participant : Participant),
          step.before.participants[index]? = some participant →
          ∃ sig, entry.signatureOf? index = some sig ∧
            sig.recoverSigner step.before.lastState.hash = .ok participant.address) ∧
      draft.state = { step.before.lastState with turn := step.before.lastState.turn + 1 } ∧
      draft.state.turn.toNat = step.before.lastState.turn.toNat + 1 := by
  intro step hmem draft hproposed
  obtain ⟨hbefore, -⟩ := reachable_of_mem_run (.create h) hmem
  have hstrict : step.before.policy = .requireSupported := by
    obtain ⟨-, -, rfl⟩ := create_ok h
    exact (sameTerms_of_mem_run hmem).1.policy_eq.trans hpolicy
  have hproposes : step.before.Proposes draft := (effect_of_answer hmem hproposed).proposes
  obtain ⟨hlatest, hlast⟩ :=
    hbefore.ordered.eq_of_supported_lastTurn (hproposes.supported hstrict)
  have hsupported : step.before.isSupported step.before.lastState.turn = true := by
    rw [hlast]
    exact hproposes.supported hstrict
  obtain ⟨entry, hentry, hhash, hcomplete⟩ :=
    (isSupported_lastState_iff hbefore.sound hbefore.counted).mp hsupported
  refine ⟨by rw [hlatest, hlast], ⟨entry, hentry, hhash, hcomplete, ?_⟩, ?_, ?_⟩
  · rw [← hhash]
    exact (hbefore.sound.isComplete_iff hentry).mp hcomplete
  · rw [hlast]
    exact hproposes.state_eq
  · rw [hproposes.state_eq, hlast]
    exact hproposes.toNat_next

/-- The solo channel under the strict policy. -/
def strictSolo : Channel := ofOpening soloOpening 0 .requireSupported

/-- The member asks for a turn too early, signs the state before funding, and asks twice again. -/
def strictRun : List (Step Unit Unit) :=
  strictSolo.run [(accepting, .proposeState), (accepting, .approveInit soloKey),
    (accepting, .proposeState), (accepting, .proposeState)]

theorem turns_strictRun :
    strictRun.map (fun step => (step.answer.handedOut?, step.answer.failure?))
      = [(none, some (.propose (.previousTurnUnsupported 0))), (none, none), (some 1, none),
        (none, some (.propose (.previousTurnUnsupported 1)))] := by
  decide +kernel

theorem strictRun_builds_on_support :
    create soloOpening 0 { proposalPolicy := .requireSupported } = .ok strictSolo ∧
    strictRun.map (·.answer.handedOut?) = [none, none, some 1, none] ∧
    ∃ step ∈ strictRun, ∃ draft, step.answer = .proposed draft ∧ draft.state.turn = 1 ∧
      step.before.latestSupported = some step.before.lastState.turn ∧
      draft.state = { step.before.lastState with turn := step.before.lastState.turn + 1 } := by
  have hcreate : create soloOpening 0 { proposalPolicy := .requireSupported } = .ok strictSolo := rfl
  have hturns : strictRun.map (·.answer.handedOut?) = [none, none, some 1, none] := by
    have hfirst := congrArg (List.map Prod.fst) turns_strictRun
    rwa [List.map_map] at hfirst
  have hone : some 1 ∈ strictRun.map (·.answer.handedOut?) := by
    rw [hturns]
    decide
  obtain ⟨step, hmem, hanswer⟩ := List.mem_map.mp hone
  obtain ⟨draft, hproposed, hturn⟩ := Answer.handedOut?_eq_some_iff.mp hanswer
  obtain ⟨hlatest, -, hdraft, -⟩ :=
    strict_proposals_build_on_support hcreate rfl _ step hmem draft hproposed
  exact ⟨hcreate, hturns, step, hmem, draft, hproposed, hturn, hlatest, hdraft⟩

end DebtChannel.Channel
