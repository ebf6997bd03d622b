import DebtChannel.Proofs.Finality
import DebtChannel.Proofs.HeldStates
import DebtChannel.Proofs.SettlementPacking

/-!
# Which states of a channel are well formed

A proposal is looked at once, when the channel begins: there has to be a participant, none may be
listed twice, there has to be an asset, and every asset has to be shared out among exactly the
participants. After that nobody looks any more. The participants need no second look, since they
belong to the fixed part, which every signed state has to have. The outcome does: it comes with the
draft, signing reads nothing of it but the hash, and so a draft that shares out nothing at all is
signed, put on record and made the last state.

So the channel is as well formed as the drafts that were signed. Two things carry the proof. A
signature never changes a state that is on record already, which is why turns zero and one stay what
the proposal made of them (`keeps_step`). And no check reads the number of a state, so that it is
enough to look at what is handed in (`Holds.of_mem_run`). In the other direction a signed draft is
the last state right after, so that a defect in it is there to be seen.
-/

namespace DebtChannel.Channel

variable {ρ ε : Type}

/-- Every state that the channel holds is well formed. -/
structure WellFormed (channel : Channel) : Prop where
  recorded : ∀ turn entry, channel.signedTurn? turn = some entry → entry.state.WellFormed
  last : channel.lastState.WellFormed

theorem wellFormed_iff_holds {channel : Channel} :
    channel.WellFormed ↔ channel.Holds State.WellFormed :=
  ⟨fun h => ⟨h.recorded, h.last⟩, fun h => ⟨h.recorded, h.last⟩⟩

theorem ignoresTurn_wellFormed : IgnoresTurn State.WellFormed :=
  fun _ _ h => ⟨h.participants, h.nodup, h.outcome, h.shares⟩

theorem wellFormed_create {opening : Opening} {partIndex : UInt64} {config : Config}
    {channel : Channel} (h : create opening partIndex config = .ok channel) :
    channel.WellFormed := by
  obtain ⟨hnone, -, -⟩ := create_ok h
  obtain ⟨-, -, hdefect, -⟩ := initialDefect?_eq_none hnone
  have hstate : opening.state.WellFormed := State.defect?_eq_none_iff.mp hdefect
  exact wellFormed_iff_holds.mpr (holds_create h ignoresTurn_wellFormed hstate)

theorem wellFormed_after_run {channel : Channel} (h : channel.WellFormed)
    {operations : List (Adjudicator ρ ε × Operation)}
    (hdrafts : ∀ step ∈ channel.run operations, ∀ draft key sig,
      step.operation = .signState draft key → step.answer = .signed draft.state sig →
      draft.state.WellFormed) :
    ∀ step ∈ channel.run operations, step.after.WellFormed := by
  have hholds := (wellFormed_iff_holds.mp h).of_mem_run ignoresTurn_wellFormed hdrafts
  exact fun step hmem => wellFormed_iff_holds.mpr (hholds step hmem).2

theorem wellFormed_of_run {channel : Channel} {operations : List (Adjudicator ρ ε × Operation)}
    (hafter : ∀ step ∈ channel.run operations, step.after.WellFormed) {step : Step ρ ε}
    (hmem : step ∈ channel.run operations) {draft : Draft} {key : Bytes} {sig : Signature}
    (hsign : step.operation = .signState draft key)
    (hsigned : step.answer = .signed draft.state sig) : draft.state.WellFormed := by
  obtain ⟨adjudicator, hstep⟩ := eq_step_operation_of_mem_run hmem
  rw [hsign] at hstep
  have hlast : step.after.lastState = draft.state := by
    rw [hstep] at hsigned ⊢
    exact lastState_of_signState hsigned
  rw [← hlast]
  exact (hafter step hmem).last

/-- At any time the participants of every state that a channel holds are what they have to be, and
turns zero and one are well formed. Beyond that the states on record and the last state are well
formed all along a run exactly if every draft that was handed in and signed had no defect. -/
theorem run_wellFormed_iff_signed_drafts {opening : Opening} {partIndex : UInt64} {config : Config}
    {channel : Channel} (h : create opening partIndex config = .ok channel)
    (operations : List (Adjudicator ρ ε × Operation)) :
    (∀ step ∈ channel.run operations,
      (∀ turn entry, step.after.signedTurn? turn = some entry →
        entry.state.participants ≠ [] ∧ entry.state.participants.Nodup ∧
        (turn = 0 ∨ turn = 1 → entry.state.WellFormed)) ∧
      step.after.lastState.participants ≠ [] ∧ step.after.lastState.participants.Nodup) ∧
    channel.WellFormed ∧
    ((∀ step ∈ channel.run operations, step.after.WellFormed) ↔
      ∀ step ∈ channel.run operations, ∀ draft key sig,
        step.operation = .signState draft key → step.answer = .signed draft.state sig →
        draft.state.defect? = none) := by
  have hbegin := wellFormed_create h
  refine ⟨fun step hmem => ?_, hbegin, fun hafter step hmem draft key sig hsign hsigned => ?_,
    fun hdrafts => wellFormed_after_run hbegin fun step hmem draft key sig hsign hsigned => ?_⟩
  · have hreachable : Reachable step.after := (reachable_of_mem_run (.create h) hmem).2
    have hsound := hreachable.sound
    refine ⟨fun turn entry hentry => ?_, ?_, ?_⟩
    · rw [hsound.participants_entry hentry]
      refine ⟨hsound.nonempty, hsound.nodup, fun hturn => ?_⟩
      obtain ⟨first, hfirst⟩ : ∃ first, channel.signedTurn? turn = some first := by
        rcases hturn with rfl | rfl
        · exact ⟨_, rfl⟩
        · exact ⟨_, rfl⟩
      obtain ⟨kept, hkept, hstate, -⟩ := (keeps_of_mem_run hmem).2.entries turn first hfirst
      obtain rfl := Option.some.inj (hentry.symm.trans hkept)
      rw [hstate]
      exact hbegin.recorded turn first hfirst
    · rw [hreachable.lastState_fixed]
      exact hsound.nonempty
    · rw [hreachable.lastState_fixed]
      exact hsound.nodup
  · exact State.defect?_eq_none_iff.mpr (wellFormed_of_run hafter hmem hsign hsigned)
  · exact State.defect?_eq_none_iff.mp (hdrafts step hmem draft key sig hsign hsigned)

/-- A draft of turn two that shares out nothing. -/
def soloUnshared : State := { soloOpening.state with turn := 2, outcome := [] }

/-- The member of the solo channel signs that draft. -/
def unshared : Step Unit Unit := solo.step accepting (.signState ⟨soloUnshared, .empty⟩ soloKey)

theorem signed_unshared :
    unshared.answer.failure? = none ∧ unshared.after.lastState = soloUnshared ∧
    (unshared.after.signedTurn? 2).map SignedTurn.state = some soloUnshared := by
  decide +kernel

/-- Without that condition a state with a defect is signed, goes on record and becomes the last
one, although it is the state of a draft like any other. -/
theorem draft_without_exit_is_signed :
    ∃ (draft : Draft) (sig : Signature) (entry : SignedTurn),
      Reachable solo ∧ Draft.ofState soloUnshared = .ok draft ∧
      (solo.step accepting (.signState draft soloKey)).answer = .signed draft.state sig ∧
      draft.state.defect? = some .noExit ∧
      (solo.step accepting (.signState draft soloKey)).after.lastState = draft.state ∧
      (solo.step accepting (.signState draft soloKey)).after.signedTurn? 2 = some entry ∧
      entry.state.defect? = some .noExit := by
  obtain ⟨hanswer, hlast, hrecorded⟩ := signed_unshared
  unfold unshared at hanswer hlast hrecorded
  obtain ⟨sig, hsigned⟩ := exists_signed_of_failure?_eq_none hanswer
  obtain ⟨entry, hentry, hstate⟩ := Option.map_eq_some_iff.mp hrecorded
  have hdraft : Draft.ofState soloUnshared = .ok ⟨soloUnshared, .empty⟩ := by
    unfold Draft.ofState
    rfl
  exact ⟨⟨soloUnshared, .empty⟩, sig, entry, .create create_solo, hdraft, hsigned, rfl, hlast,
    hentry, by rw [hstate]; rfl⟩

/-- If the only draft that is handed in shares out everything, the channel stays well formed. -/
theorem handed_in_soloFinal_is_wellFormed :
    soloFinal.defect? = none ∧
    ∀ step ∈ solo.run [(accepting, .proposeState),
        (accepting, .signState ⟨soloFinal, .empty⟩ soloKey), (accepting, .proposeState)],
      step.after.WellFormed := by
  refine ⟨rfl, (run_wellFormed_iff_signed_drafts create_solo _).2.2.mpr ?_⟩
  intro step hmem draft key sig hsign _
  obtain ⟨adjudicator, hhanded⟩ := exists_mem_of_mem_run hmem
  rw [hsign] at hhanded
  simp only [List.mem_cons, Prod.mk.injEq, reduceCtorEq, and_false, Operation.signState.injEq,
    List.not_mem_nil, or_false, false_or] at hhanded
  obtain ⟨-, rfl, -⟩ := hhanded
  rfl

end DebtChannel.Channel
