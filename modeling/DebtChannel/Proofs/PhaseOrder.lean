import DebtChannel.Proofs.CoveredDeposits
import DebtChannel.Proofs.Finality
import DebtChannel.Proofs.HandedOutTurns

/-!
# The life of a channel goes forward

A channel does not keep its phase. The phase is read off eight facts, one for each phase but the
first, and the latest phase whose fact holds is the one (`shows_phase`, `le_phase_of_shows`). So a
channel that keeps all its facts cannot fall back. Seven of them are kept by every step: signatures
and complete turns stay, the counters of turns do not fall, and the two flags are never taken back.

The one that can be lost is that the last state is final, because another state can be signed in its
place. How far the channel falls back then depends on where the final state stood. The last state
has the hash that is on record for its turn once it is final (`Ordered.final`), and the two turns of
the funding are on record from the start, with states that are not final. So as long as nobody hands
in a final state that has the hash of one of those two, a final last state stands above them. The
last turn is then above one and stays so, and the channel falls back by one phase and no further.
-/

namespace DebtChannel.Channel

variable {ρ ε : Type}

/-! ## The order of the phases -/

namespace Phase

/-- How many phases there are before a phase in the life of a channel. -/
def rank : Phase → Nat
  | .created => 0
  | .preFundSigning => 1
  | .preFundComplete => 2
  | .funding => 3
  | .postFundSigning => 4
  | .postFundComplete => 5
  | .interacting => 6
  | .finalizing => 7
  | .concluded => 8

instance : LE Phase := ⟨fun earlier later => earlier.rank ≤ later.rank⟩

instance : LT Phase := ⟨fun earlier later => earlier.rank < later.rank⟩

instance (earlier later : Phase) : Decidable (earlier ≤ later) :=
  inferInstanceAs (Decidable (earlier.rank ≤ later.rank))

theorem not_le {earlier later : Phase} : ¬ earlier ≤ later ↔ later < earlier := Nat.not_le

theorem eq_of_rank_eq {phase other : Phase} (h : phase.rank = other.rank) : phase = other := by
  cases phase <;> cases other <;> first | rfl | cases h

theorem le_antisymm {phase other : Phase} (h : phase ≤ other) (h' : other ≤ phase) :
    phase = other :=
  eq_of_rank_eq (Nat.le_antisymm h h')

end Phase

variable {channel : Channel}

/-- The fact that a phase is told by. -/
def shows (channel : Channel) : Phase → Bool
  | .created => true
  | .preFundSigning => channel.turns.preFund.hasSignatures
  | .preFundComplete => channel.turns.preFund.isComplete
  | .funding => channel.depositSubmitted
  | .postFundSigning => channel.turns.postFund.hasSignatures
  | .postFundComplete => channel.turns.postFund.isComplete
  | .interacting => channel.isInteracting
  | .finalizing => channel.lastState.isFinal
  | .concluded => channel.concluded

theorem shows_phase (channel : Channel) : channel.shows channel.phase = true := by
  unfold phase
  repeat' split
  all_goals first | rfl | assumption

theorem le_phase_of_shows (phase : Phase) (h : channel.shows phase = true) :
    phase ≤ channel.phase := by
  unfold Channel.phase
  repeat' split
  all_goals cases phase <;> first | decide | contradiction

/-! ## What a step keeps -/

theorem isInteracting_iff :
    channel.isInteracting = true ↔
      1 < channel.lastTurn ∨ ∃ latest, channel.latestSupported = some latest ∧ 1 < latest := by
  rw [isInteracting, Bool.or_eq_true, decide_eq_true_eq, Option.any_eq_true]
  simp only [decide_eq_true_eq]

theorem Effect.isInteracting {after : Channel} {answer : Answer ρ ε}
    (heffect : Effect channel answer after) (h : channel.isInteracting = true) :
    after.isInteracting = true := by
  rw [isInteracting_iff] at h ⊢
  rcases h with hlast | ⟨latest, hlatest, hlt⟩
  · exact .inl (UInt64.lt_of_lt_of_le hlast heffect.lastTurn_le)
  · obtain ⟨higher, hhigher, hle⟩ := heffect.keeps.latest latest hlatest
    exact .inr ⟨higher, hhigher, UInt64.lt_of_lt_of_le hlt hle⟩

/-- But for the final last state, what tells a phase is never lost. -/
theorem Effect.shows {after : Channel} {answer : Answer ρ ε}
    (heffect : Effect channel answer after) {phase : Phase} (hphase : phase ≠ .finalizing)
    (h : channel.shows phase = true) : after.shows phase = true := by
  have hkeeps := heffect.keeps
  cases phase with
  | created => rfl
  | preFundSigning => exact hkeeps.hasSignatures 0 rfl rfl h
  | preFundComplete => exact hkeeps.supported 0 h
  | funding =>
      have hsubmitted : channel.depositSubmitted = true := h
      exact heffect.depositSubmitted.trans (by rw [hsubmitted, Bool.true_or])
  | postFundSigning => exact hkeeps.hasSignatures 1 rfl rfl h
  | postFundComplete => exact hkeeps.supported 1 h
  | interacting => exact heffect.isInteracting h
  | finalizing => exact absurd rfl hphase
  | concluded =>
      have hconcluded : channel.concluded = true := h
      exact heffect.concluded.1.trans (by rw [hconcluded, Bool.true_or])

theorem finalizing_le_phase_iff (hopen : channel.concluded = false) :
    Phase.finalizing ≤ channel.phase ↔ channel.lastState.isFinal = true := by
  refine ⟨fun hle => ?_, fun hfinal => le_phase_of_shows .finalizing hfinal⟩
  have hshows := channel.shows_phase
  generalize channel.phase = phase at hle hshows
  cases phase with
  | finalizing => exact hshows
  | concluded =>
      rw [show channel.concluded = true from hshows] at hopen
      cases hopen
  | _ => exact absurd hle (by decide)

theorem of_phase_eq_finalizing (h : channel.phase = .finalizing) :
    channel.concluded = false ∧ channel.lastState.isFinal = true := by
  have hfinal : channel.lastState.isFinal = true := by
    have hshows := channel.shows_phase
    rwa [h] at hshows
  refine ⟨Bool.not_eq_true _ ▸ fun hconcluded => ?_, hfinal⟩
  have hle : Phase.concluded ≤ channel.phase := le_phase_of_shows .concluded hconcluded
  rw [h] at hle
  exact absurd hle (by decide)

/-- A channel falls back only when a final last state is replaced. -/
theorem Effect.phase_le {after : Channel} {answer : Answer ρ ε}
    (heffect : Effect channel answer after)
    (h : channel.phase = .finalizing → after.lastState.isFinal = true) :
    channel.phase ≤ after.phase := by
  by_cases hphase : channel.phase = .finalizing
  · rw [hphase]
    exact le_phase_of_shows .finalizing (h hphase)
  · exact le_phase_of_shows _ (heffect.shows hphase channel.shows_phase)

/-- And then not far, if turns above one have been handed out. -/
theorem Effect.phase_eq_interacting {after : Channel} {answer : Answer ρ ε}
    (heffect : Effect channel answer after) (hphase : channel.phase = .finalizing)
    (hinteracting : channel.isInteracting = true) (hlost : after.lastState.isFinal = false) :
    after.phase = .interacting := by
  obtain ⟨hopen, hfinal⟩ := of_phase_eq_finalizing hphase
  -- It was a signature, so the channel is still open.
  have hstill : after.concluded = false := by
    rcases heffect.lastState_of_isFinal (.inl hfinal) with hsame | ⟨sig, hsigned⟩
    · rw [hsame, hfinal] at hlost
      cases hlost
    · rw [heffect.concluded.1, hopen, hsigned]
      rfl
  refine Phase.le_antisymm ?_ (le_phase_of_shows _ (heffect.isInteracting hinteracting))
  have hlt : ¬ Phase.finalizing ≤ after.phase := by
    rw [finalizing_le_phase_iff hstill, hlost]
    exact Bool.false_ne_true
  exact Nat.le_of_lt_succ (Phase.not_le.mp hlt)

/-! ## Where a final last state stands -/

section Run

variable {opening : Opening} {partIndex : UInt64} {config : Config}
  {operations : List (Adjudicator ρ ε × Operation)} {step : Step ρ ε}

/-- What takes the place of a final last state is signed, as a draft or as the state after
funding. -/
theorem signed_of_lastState_ne (hmem : step ∈ channel.run operations)
    (hfinal : step.before.lastState.isFinal = true)
    (hne : step.after.lastState ≠ step.before.lastState) :
    (∃ sig, step.answer = .signed step.after.lastState sig) ∧
    ((∃ draft key, step.operation = .signState draft key) ∨
      ∃ key, step.operation = .approveFunding key) := by
  rcases (effect_of_mem_run hmem).lastState_of_isFinal (.inl hfinal) with hsame | ⟨sig, hsigned⟩
  · exact absurd hsame hne
  · refine ⟨⟨sig, hsigned⟩, ?_⟩
    obtain ⟨adjudicator, operation, hstep⟩ := eq_step_of_mem_run hmem
    have hoperation : step.operation = operation := by rw [hstep, (step_fields _ _ _).2]
    rw [hstep] at hsigned
    rcases source_of_signed hsigned with ⟨key, rfl, -⟩ | ⟨key, hfunding, -⟩ | ⟨draft, key, hdraft, -⟩
    · refine absurd ?_ hne
      rw [hstep, (step_fields _ _ _).1]
      exact lastState_of_approveInit step.before adjudicator key
    · exact .inr ⟨key, hoperation.trans hfunding⟩
    · exact .inl ⟨draft, key, hoperation.trans hdraft⟩

theorem exists_draft_of_isFinal (h : create opening partIndex config = .ok channel)
    (hmem : step ∈ channel.run operations) {state : State} {sig : Signature}
    (hsigned : step.answer = .signed state sig) (hfinal : state.isFinal = true) :
    ∃ adjudicator draft key, (adjudicator, .signState draft key) ∈ operations ∧
      step.operation = .signState draft key ∧ state = draft.state := by
  obtain ⟨adjudicator, hstep⟩ := eq_step_operation_of_mem_run hmem
  have hkeeps := (keeps_of_mem_run hmem).1
  have hbegin := (create_ok h).2.2
  have hopening := (initialDefect?_eq_none (create_ok h).1).2.1
  have hanswer : (step.before.step adjudicator step.operation).answer = .signed state sig := by
    rw [← hstep]
    exact hsigned
  -- The states of the funding are still those of the beginning, which are not final.
  rcases source_of_signed hanswer with ⟨-, -, rfl⟩ | ⟨-, -, rfl⟩ | ⟨draft, key, hoperation, rfl⟩
  · rw [hkeeps.preFund.1, hbegin] at hfinal
    exact absurd (hopening.symm.trans hfinal) Bool.false_ne_true
  · rw [hkeeps.postFund.1, hbegin] at hfinal
    exact absurd (hopening.symm.trans hfinal) Bool.false_ne_true
  · obtain ⟨pending, hhanded⟩ := exists_mem_of_mem_run hmem
    rw [hoperation] at hhanded
    exact ⟨pending, draft, key, hhanded, hoperation, rfl⟩

/-- What is true of the final states that are handed in is true of a final last state. -/
theorem holds_lastState_of_isFinal {P : State → Prop}
    (h : create opening partIndex config = .ok channel)
    (hdrafts : ∀ adjudicator draft key, (adjudicator, .signState draft key) ∈ operations →
      draft.state.isFinal = true → P draft.state)
    (hmem : step ∈ channel.run operations) (hfinal : step.before.lastState.isFinal = true) :
    P step.before.lastState := by
  let Q (c : Channel) := c.lastState.isFinal = true → P c.lastState
  have hstart : Q channel := by
    intro hbegin
    rw [(create_ok h).2.2] at hbegin
    exact absurd ((initialDefect?_eq_none (create_ok h).1).2.1.symm.trans hbegin) Bool.false_ne_true
  have hkept : ∀ step ∈ channel.run operations, Q step.before → Q step.after := by
    intro step hmem hbefore hfinal
    rcases (effect_of_mem_run hmem).lastState_of_isFinal (.inr hfinal) with
      hsame | ⟨sig, hsigned⟩
    · rw [hsame] at hfinal ⊢
      exact hbefore hfinal
    · obtain ⟨adjudicator, draft, key, hhanded, -, hdraft⟩ :=
        exists_draft_of_isFinal h hmem hsigned hfinal
      rw [hdraft] at hfinal ⊢
      exact hdrafts adjudicator draft key hhanded hfinal
  exact (forall_mem_run_of_kept hstart hkept step hmem).1 hfinal

/-- A final last state stands above the two turns of the funding, unless it has the hash of one of
their states. -/
theorem isInteracting_of_isFinal (h : Reachable channel) (hmem : step ∈ channel.run operations)
    (hfinal : step.before.lastState.isFinal = true)
    (hpreFund : step.before.lastState.hash ≠ channel.turns.preFund.hash)
    (hpostFund : step.before.lastState.hash ≠ channel.turns.postFund.hash) :
    step.before.isInteracting = true := by
  have hordered := (reachable_of_mem_run h hmem).1.ordered
  have hkeeps := (keeps_of_mem_run hmem).1
  -- Its hash is on record for its turn, and the hashes of the first two turns never change.
  obtain ⟨entry, hentry, hhash, -⟩ := hordered.final hfinal
  have hzero : step.before.lastState.turn ≠ 0 := by
    intro hturn
    rw [hturn] at hentry
    obtain rfl := Option.some.inj hentry
    exact hpreFund (hhash.symm.trans hkeeps.preFund.2)
  have hone : step.before.lastState.turn ≠ 1 := by
    intro hturn
    rw [hturn] at hentry
    obtain rfl := Option.some.inj hentry
    exact hpostFund (hhash.symm.trans hkeeps.postFund.2)
  have hlt : 1 < step.before.lastState.turn := by
    rw [UInt64.lt_iff_toNat_lt]
    rw [Ne, ← UInt64.toNat_inj] at hzero hone
    simp at hzero hone ⊢
    omega
  exact isInteracting_iff.mpr (.inl (UInt64.lt_of_lt_of_le hlt hordered.lastState_le))

end Run

/-! ## Whole runs -/

/-- Whatever a run does, as long as no final state is handed in that has the hash of the state before
or of the state after funding, no operation leads a channel back to an earlier phase, but for one
case. A channel that is about to be settled goes on when another state takes the place of the final
one; it is then interacting, and what has replaced the final state was signed by the operation, as
a draft or as the state after funding. -/
theorem phase_falls_back_to_interacting_only {opening : Opening} {partIndex : UInt64}
    {config : Config} (h : create opening partIndex config = .ok channel)
    (operations : List (Adjudicator ρ ε × Operation))
    (hfinals : ∀ adjudicator draft key, (adjudicator, .signState draft key) ∈ operations →
      draft.state.isFinal = true →
      draft.state.hash ≠ channel.turns.preFund.hash ∧
        draft.state.hash ≠ channel.turns.postFund.hash) :
    ∀ step ∈ channel.run operations,
      (step.before.phase ≤ step.after.phase ∨
        step.before.phase = .finalizing ∧ step.after.phase = .interacting) ∧
      (step.after.phase < step.before.phase ↔
        step.before.phase = .finalizing ∧ step.after.lastState.isFinal = false) ∧
      (step.after.phase < step.before.phase →
        step.before.lastState.isFinal = true ∧ step.after.lastState.isFinal = false ∧
        (∃ sig, step.answer = .signed step.after.lastState sig) ∧
        ((∃ draft key, step.operation = .signState draft key) ∨
          ∃ key, step.operation = .approveFunding key)) := by
  intro step hmem
  have heffect := effect_of_mem_run hmem
  -- What happens when a final last state is lost.
  have hlost : step.before.phase = .finalizing → step.after.lastState.isFinal = false →
      step.after.phase = .interacting := by
    intro hphase hlost
    obtain ⟨-, hfinal⟩ := of_phase_eq_finalizing hphase
    obtain ⟨hpreFund, hpostFund⟩ := holds_lastState_of_isFinal
      (P := fun state => state.hash ≠ channel.turns.preFund.hash ∧
        state.hash ≠ channel.turns.postFund.hash) h hfinals hmem hfinal
    exact heffect.phase_eq_interacting hphase
      (isInteracting_of_isFinal (.create h) hmem hfinal hpreFund hpostFund) hlost
  -- And that nothing else leads back.
  have hback : step.after.phase < step.before.phase →
      step.before.phase = .finalizing ∧ step.after.lastState.isFinal = false := by
    intro hlt
    refine Classical.byContradiction fun hnot => Phase.not_le.mpr hlt (heffect.phase_le ?_)
    intro hphase
    exact Bool.not_eq_false _ ▸ fun hfinal => hnot ⟨hphase, hfinal⟩
  refine ⟨?_, ⟨hback, fun ⟨hphase, hfinal⟩ => ?_⟩, fun hlt => ?_⟩
  · by_cases hle : step.before.phase ≤ step.after.phase
    · exact .inl hle
    · obtain ⟨hphase, hfinal⟩ := hback (Phase.not_le.mp hle)
      exact .inr ⟨hphase, hlost hphase hfinal⟩
  · rw [hphase, hlost hphase hfinal]
    exact Phase.not_le.mp (by decide)
  · obtain ⟨hphase, hfinal⟩ := hback hlt
    obtain ⟨-, hwas⟩ := of_phase_eq_finalizing hphase
    have hne : step.after.lastState ≠ step.before.lastState := by
      intro hsame
      rw [hsame, hwas] at hfinal
      cases hfinal
    exact ⟨hwas, hfinal, signed_of_lastState_ne hmem hwas hne⟩

/-- The solo channel hands out three turns, signs a final state for the second and then the draft of
the third. -/
def soloOvertaking : List (Adjudicator Unit Unit × Operation) :=
  [(accepting, .proposeState), (accepting, .proposeState), (accepting, .proposeState),
    (accepting, .signState ⟨soloFinal, .empty⟩ soloKey),
    (accepting, .signState ⟨soloBeyond, .empty⟩ soloKey)]

theorem mem_run_soloOvertaking : overtaking ∈ solo.run soloOvertaking := by
  rw [soloOvertaking, run_cons, run_cons, run_cons, run_cons, run_cons]
  exact List.mem_cons_of_mem _ (List.mem_cons_of_mem _ (List.mem_cons_of_mem _
    (List.mem_cons_of_mem _ List.mem_cons_self)))

theorem finals_soloOvertaking (adjudicator : Adjudicator Unit Unit) (draft : Draft) (key : Bytes)
    (h : (adjudicator, .signState draft key) ∈ soloOvertaking)
    (hfinal : draft.state.isFinal = true) :
    draft.state.hash ≠ solo.turns.preFund.hash ∧ draft.state.hash ≠ solo.turns.postFund.hash := by
  simp only [soloOvertaking, List.mem_cons, Prod.mk.injEq, reduceCtorEq, and_false, false_or,
    Operation.signState.injEq, List.not_mem_nil, or_false] at h
  rcases h with ⟨-, rfl, -⟩ | ⟨-, rfl, -⟩
  · decide +kernel
  · cases hfinal

theorem phase_finishing : finishing.after.phase = .finalizing := by
  obtain ⟨hanswer, -, hlast, -⟩ := counters_finishing
  obtain ⟨sig, hsigned⟩ : ∃ sig, finishing.answer = .signed soloFinal sig :=
    exists_signed_of_failure?_eq_none hanswer
  have heffect : Effect handedOut finishing.answer finishing.after :=
    handedOut.step_effect accepting _
  have hopen : finishing.after.concluded = false := by
    rw [heffect.concluded.1, hsigned]
    rfl
  rw [phase, hopen, hlast]
  rfl

/-- The member signs on from the final state, and the channel falls back. -/
theorem solo_falls_back_to_interacting :
    create soloOpening 0 = .ok solo ∧ overtaking ∈ solo.run soloOvertaking ∧
    overtaking.before.phase = .finalizing ∧ overtaking.after.phase = .interacting ∧
    ∃ sig, overtaking.answer = .signed soloBeyond sig := by
  have hphase : overtaking.before.phase = .finalizing := by
    rw [overtaking, (step_fields _ _ _).1]
    exact phase_finishing
  have hlast := answer_overtaking.2
  obtain ⟨hforward, hback, hsigned⟩ := phase_falls_back_to_interacting_only create_solo
    soloOvertaking finals_soloOvertaking overtaking mem_run_soloOvertaking
  have hlt : overtaking.after.phase < overtaking.before.phase :=
    hback.mpr ⟨hphase, by rw [hlast]; rfl⟩
  obtain ⟨-, -, hanswer, -⟩ := hsigned hlt
  rw [hlast] at hanswer
  exact ⟨create_solo, mem_run_soloOvertaking, hphase,
    (hforward.resolve_left (Phase.not_le.mpr hlt)).2, hanswer⟩

end DebtChannel.Channel
