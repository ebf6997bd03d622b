import DebtChannel.Proofs.TurnCounters

/-!
# Whether a final state is the last one

A state that is marked as final is meant to be the last one of its channel, and no turn is handed
out while the last state is final. Signing does not look at the mark. It refuses a turn below the
latest supported one and a second state of one turn, and both let a state of a later turn through.
Such a state can be at hand when the final one is signed by everyone: a draft that was handed out
before, or one that another participant made. Once it is signed it is the last state, the channel
goes on, and it cannot be settled by the final state any more unless that is signed again.

So finality holds as far as the callers keep to it. As long as no state above the final turn is
handed in to be signed, nothing but the final state is signed, and the last state stays what it is.
Three facts make up the proof. Whatever is signed is at least at the final turn, because that turn
is supported (`Admits.fresh`). The two states that are signed without being handed in are at turns
zero and one, and neither turn can be final below one that was signed, since the state before
funding is not final. And nothing but a signature takes the place of a final last state.
-/

namespace DebtChannel.Channel

variable {ρ ε : Type}

/-! ## The final turn is not passed -/

theorem Reachable.isFinal_preFund {channel : Channel} (h : Reachable channel) :
    channel.turns.preFund.state.isFinal = false := by
  induction h with
  | create h =>
      obtain ⟨hnone, -, rfl⟩ := create_ok h
      exact (initialDefect?_eq_none hnone).2.1
  | @step ρ ε channel adjudicator operation _ ih =>
      rw [(keeps_step channel adjudicator operation).preFund.1]
      exact ih

section Final

variable {channel : Channel} {turn : UInt64} {entry : SignedTurn}

/-- Once everyone signed a final state, a signed state is that of the same turn on record, or it is
of a later turn and was handed in. -/
theorem signed_at_or_above (h : Reachable channel) (hentry : channel.signedTurn? turn = some entry)
    (hcomplete : entry.isComplete = true) (hfinal : entry.state.isFinal = true)
    {adjudicator : Adjudicator ρ ε} {operation : Operation} {state : State} {sig : Signature}
    (hsigned : (channel.step adjudicator operation).answer = .signed state sig) :
    (state.turn = turn ∧ state.hash = entry.hash) ∨
      (turn < state.turn ∧ ∃ draft key, operation = .signState draft key ∧ state = draft.state) := by
  obtain ⟨index, hadmits, -⟩ := exists_admits_of_signed hsigned
  have hsupported : channel.isSupported turn = true := by
    rw [isSupported_eq_any, hentry]
    exact hcomplete
  obtain ⟨latest, hlatest, hle⟩ := h.ordered.supported_le turn hsupported
  have hfresh : turn ≤ state.turn := UInt64.le_trans hle (hadmits.fresh latest hlatest)
  by_cases hturn : state.turn = turn
  · exact .inl ⟨hturn, (hadmits.agrees entry (hturn ▸ hentry)).symm⟩
  · have hlt : turn < state.turn := UInt64.lt_of_le_of_ne hfresh (Ne.symm hturn)
    refine .inr ⟨hlt, ?_⟩
    have hzero : ∀ found, channel.signedTurn? 0 = some found → found.state.turn = 0 :=
      fun found hfound => (h.sound.entries 0 found hfound).turn_eq
    have hone : ∀ found, channel.signedTurn? 1 = some found → found.state.turn = 1 :=
      fun found hfound => (h.sound.entries 1 found hfound).turn_eq
    rcases source_of_signed hsigned with ⟨-, -, rfl⟩ | ⟨-, -, rfl⟩ | hhanded
    · rw [hzero _ rfl, UInt64.lt_iff_toNat_lt] at hlt
      simp at hlt
    · -- Below turn one there is only the state before funding, which is not final.
      rw [hone _ rfl, UInt64.lt_iff_toNat_lt] at hlt
      have hturn : turn = 0 := UInt64.toNat_inj.mp (by simp at hlt ⊢; omega)
      rw [hturn] at hentry
      obtain rfl := Option.some.inj hentry
      rw [h.isFinal_preFund] at hfinal
      cases hfinal
    · exact hhanded

/-- Nothing but a signed state takes the place of a final last state, or brings one about. -/
theorem Effect.lastState_of_isFinal {after : Channel} {answer : Answer ρ ε}
    (heffect : Effect channel answer after)
    (hfinal : channel.lastState.isFinal = true ∨ after.lastState.isFinal = true) :
    after.lastState = channel.lastState ∨ ∃ sig, answer = .signed after.lastState sig := by
  cases heffect with
  | failed cause => exact .inl rfl
  | approved index sig hadmits => exact .inl rfl
  | signed state index sig hadmits => exact .inr ⟨sig, by rw [lastState_advance]⟩
  | proposed draft hproposes =>
      have hdraft : draft.state.isFinal = channel.lastState.isFinal := by rw [hproposes.state_eq]
      rw [hproposes.notFinal] at hdraft hfinal
      rcases hfinal with hfinal | hfinal
      · cases hfinal
      · exact absurd (hdraft.symm.trans hfinal) Bool.false_ne_true
  | deposited receipt hcomplete => exact .inl rfl
  | settled receipt hconcluded hfinal => exact .inl rfl

theorem lastState_run_of_isFinal {operations : List (Adjudicator ρ ε × Operation)}
    (hfinal : channel.lastState.isFinal = true)
    (hsame : ∀ step ∈ channel.run operations, ∀ state sig, step.answer = .signed state sig →
      state = channel.lastState) :
    ∀ step ∈ channel.run operations, step.after.lastState = channel.lastState := by
  let P (c : Channel) := c.lastState = channel.lastState
  have hstart : P channel := rfl
  have hkept : ∀ step ∈ channel.run operations, P step.before → P step.after := by
    intro step hmem hbefore
    rw [← hbefore] at hfinal
    rcases (effect_of_mem_run hmem).lastState_of_isFinal (.inl hfinal) with hkept | ⟨sig, hsigned⟩
    · exact hkept.trans hbefore
    · exact hsame step hmem _ sig hsigned
  exact fun step hmem => (forall_mem_run_of_kept hstart hkept step hmem).2

/-- Once everyone signed a final state, and as long as no state above its turn is handed in to be
signed, whatever is signed is of that turn and has the hash that is on record; and if the final
state is the last state it stays so, or else the run signs another state with its hash. -/
theorem final_turn_is_not_passed (h : Reachable channel)
    (hentry : channel.signedTurn? turn = some entry) (hcomplete : entry.isComplete = true)
    (hfinal : entry.state.isFinal = true) (operations : List (Adjudicator ρ ε × Operation))
    (hlater : ∀ adjudicator draft key, (adjudicator, .signState draft key) ∈ operations →
      draft.state.turn ≤ turn) :
    (∀ step ∈ channel.run operations, ∀ state sig, step.answer = .signed state sig →
      state.turn = turn ∧ state.hash = entry.hash) ∧
    (channel.lastState = entry.state →
      (∀ step ∈ channel.run operations, step.after.lastState = entry.state) ∨
      ∃ step ∈ channel.run operations, ∃ state sig, step.answer = .signed state sig ∧
        state ≠ entry.state ∧ state.hash = entry.hash) := by
  have hsame : ∀ step ∈ channel.run operations, ∀ state sig, step.answer = .signed state sig →
      state.turn = turn ∧ state.hash = entry.hash := by
    intro step hmem state sig hsigned
    obtain ⟨hbefore, adjudicator, operation, hstep⟩ :=
      forall_mem_run (P := Reachable) (fun _ _ _ hc => .step _ _ hc) h step hmem
    obtain ⟨kept, hkept, hstate, hhash, -⟩ := (keeps_of_mem_run hmem).1.entries turn entry hentry
    have hsupported := (keeps_of_mem_run hmem).1.supported turn (by
      rw [isSupported_eq_any, hentry]
      exact hcomplete)
    rw [isSupported_eq_any, hkept] at hsupported
    have hoperation : step.operation = operation := by rw [hstep, (step_fields _ _ _).2]
    rw [hstep] at hsigned
    rcases signed_at_or_above hbefore hkept hsupported (hstate ▸ hfinal) hsigned with
      ⟨hturn, heq⟩ | ⟨hlt, draft, key, rfl, rfl⟩
    · exact ⟨hturn, heq.trans hhash⟩
    · obtain ⟨pending, hhanded⟩ := exists_mem_of_mem_run hmem
      rw [hoperation] at hhanded
      exact absurd hlt (UInt64.not_lt.mpr (hlater pending draft key hhanded))
  refine ⟨hsame, fun hlast => ?_⟩
  by_cases hcollides : ∃ step ∈ channel.run operations, ∃ state sig,
      step.answer = .signed state sig ∧ state ≠ entry.state ∧ state.hash = entry.hash
  · exact .inr hcollides
  · refine .inl ?_
    rw [← hlast]
    refine lastState_run_of_isFinal (hlast ▸ hfinal)
      fun step hmem state sig hsigned => ?_
    rw [hlast]
    by_cases hstate : state = entry.state
    · exact hstate
    · exact absurd ⟨step, hmem, state, sig, hsigned, hstate,
        (hsame step hmem state sig hsigned).2⟩ hcollides

end Final

/-! ## A final state that was passed -/

/-- What is on record for the final turn of the solo channel. -/
theorem signedTurn?_finishing :
    ∃ entry, finishing.after.signedTurn? 2 = some entry ∧ entry.isComplete = true ∧
      entry.state = soloFinal ∧ finishing.after.lastState = soloFinal := by
  obtain ⟨-, hlatest, hlast, -, hstate⟩ := counters_finishing
  obtain ⟨entry, hentry, hstate⟩ := Option.map_eq_some_iff.mp hstate
  have hsupported := reachable_finishing.counted.complete 2 hlatest
  rw [isSupported_eq_any, hentry] at hsupported
  exact ⟨entry, hentry, hsupported, hstate, hlast⟩

/-- Without that condition the final turn is passed: the draft of turn three is signed after
everyone signed the final state of turn two, and becomes the last state. -/
theorem final_turn_is_passed_by_outstanding_draft :
    ∃ (channel : Channel) (entry : SignedTurn) (draft : Draft) (sig : Signature),
      Reachable channel ∧ channel.signedTurn? 2 = some entry ∧ entry.isComplete = true ∧
      entry.state.isFinal = true ∧ channel.lastState = entry.state ∧
      (channel.step accepting (.signState draft soloKey)).answer = .signed draft.state sig ∧
      draft.state.turn = 3 ∧ draft.state.hash ≠ entry.hash ∧
      (channel.step accepting (.signState draft soloKey)).after.lastState ≠ entry.state := by
  obtain ⟨entry, hentry, hcomplete, hstate, hlast⟩ := signedTurn?_finishing
  obtain ⟨hanswer, hovertaken⟩ := answer_overtaking
  obtain ⟨sig, hsigned⟩ := exists_signed_of_failure?_eq_none hanswer
  have hhash : soloBeyond.hash ≠ soloFinal.hash := by decide +kernel
  refine ⟨finishing.after, entry, ⟨soloBeyond, .empty⟩, sig, reachable_finishing, hentry, hcomplete,
    by rw [hstate]; rfl, by rw [hstate, hlast], hsigned, rfl, ?_, ?_⟩
  · rw [(reachable_finishing.sound.entries 2 entry hentry).hash_eq, hstate]
    exact hhash
  · rw [← overtaking, hovertaken, hstate]
    exact fun hsame => hhash (congrArg State.hash hsame)

/-- If only the final state is signed again, it stays the last one. -/
theorem final_turn_of_solo_is_not_passed :
    ∃ entry, Reachable finishing.after ∧ finishing.after.signedTurn? 2 = some entry ∧
      entry.isComplete = true ∧ entry.state.isFinal = true ∧
      ∀ step ∈ finishing.after.run [(accepting, .proposeState),
          (accepting, .signState ⟨soloFinal, .empty⟩ soloKey)],
        ∀ state sig, step.answer = .signed state sig → state.turn = 2 ∧ state.hash = entry.hash := by
  obtain ⟨entry, hentry, hcomplete, hstate, -⟩ := signedTurn?_finishing
  have hfinal : entry.state.isFinal = true := by rw [hstate]; rfl
  refine ⟨entry, reachable_finishing, hentry, hcomplete, hfinal, ?_⟩
  refine (final_turn_is_not_passed reachable_finishing hentry hcomplete hfinal _ ?_).1
  intro adjudicator draft key hmem
  simp only [List.mem_cons, Prod.mk.injEq, reduceCtorEq, and_false, Operation.signState.injEq,
    List.not_mem_nil, or_false, false_or] at hmem
  obtain ⟨-, rfl, -⟩ := hmem
  exact UInt64.le_refl 2

end DebtChannel.Channel
