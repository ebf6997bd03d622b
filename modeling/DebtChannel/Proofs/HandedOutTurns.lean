import DebtChannel.Proofs.TurnCounters

/-!
# No turn is handed out twice

A member who asks for the next turn gets a number that nobody has used, and the draft that comes
with it may wait while others are asked for, signed or dropped. The last state is of no help in
finding such a number: signing an earlier draft moves it back. So the number is taken from a counter
of its own, and all that the theory needs of that counter is that it never falls
(`Effect.lastTurn_le`) and that it is at no time below the last state or below a turn that somebody
signed (`Ordered`, `Counted`). A turn is handed out just above the counter, which moves on to it.

Anything in the past of a proposal is then below it: the counter was not below that when it
happened, and has not fallen since.
-/

namespace DebtChannel.Channel

variable {ρ ε : Type}

/-- The turn that an operation handed out, if it did. -/
def Answer.handedOut? : Answer ρ ε → Option UInt64
  | .proposed draft => some draft.state.turn
  | _ => none

theorem Answer.handedOut?_eq_some_iff {answer : Answer ρ ε} {turn : UInt64} :
    answer.handedOut? = some turn ↔
      ∃ draft, answer = .proposed draft ∧ draft.state.turn = turn := by
  constructor
  · intro h
    cases answer with
    | proposed draft => exact ⟨draft, rfl, Option.some.inj h⟩
    | _ => cases h
  · rintro ⟨draft, rfl, rfl⟩
    rfl

/-! ## The counter -/

theorem Effect.lastTurn_le {channel after : Channel} {answer : Answer ρ ε}
    (h : Effect channel answer after) : channel.lastTurn ≤ after.lastTurn := by
  cases h with
  | failed cause => exact UInt64.le_refl _
  | approved index sig hadmits => exact UInt64.le_refl _
  | signed state index sig hadmits =>
      exact lastTurn_le_advance (channel.record state index sig) state
  | proposed draft hproposes =>
      rw [UInt64.le_iff_toNat_le]
      exact Nat.le_of_lt (hproposes.toNat_next ▸ Nat.lt_succ_self _)
  | deposited receipt hcomplete => exact UInt64.le_refl _
  | settled receipt hconcluded hfinal => exact UInt64.le_refl _

theorem pairwise_lastTurn_run (operations : List (Adjudicator ρ ε × Operation))
    (channel : Channel) :
    (channel.run operations).Pairwise
      fun earlier later => earlier.after.lastTurn ≤ later.before.lastTurn := by
  refine pairwise_run fun earlier _ rest later hlater => ?_
  let P (c : Channel) := earlier.after.lastTurn ≤ c.lastTurn
  have hstart : P earlier.after := UInt64.le_refl _
  refine (forall_mem_run_of_kept hstart (fun step hmem hle => ?_) later hlater).1
  exact UInt64.le_trans hle (effect_of_mem_run hmem).lastTurn_le

theorem Effect.handsOut {channel after : Channel} {draft : Draft}
    (h : Effect (ρ := ρ) (ε := ε) channel (.proposed draft) after) :
    channel.lastTurn < draft.state.turn ∧
    draft.state = { channel.lastState with turn := draft.state.turn } ∧
    after.lastState = draft.state ∧ after.lastTurn = draft.state.turn := by
  cases h with
  | proposed draft hproposes =>
      have hstate := hproposes.state_eq
      have hturn : draft.state.turn = channel.lastTurn + 1 := by rw [hstate]
      refine ⟨?_, ?_, rfl, hturn.symm⟩
      · rw [hturn, UInt64.lt_iff_toNat_lt, hproposes.toNat_next]
        exact Nat.lt_succ_self _
      · rw [hturn]
        exact hstate

/-! ## When the turns are used up -/

/-- Nothing stands against a proposal but what it may find when it makes one. -/
structure TakesProposals (channel : Channel) : Prop where
  notConcluded : channel.concluded = false
  notFinal : channel.lastState.isFinal = false
  supported : channel.policy = .requireSupported → channel.isSupported channel.lastTurn = true

theorem proposalRefusal?_eq_turnOverflow_iff {channel : Channel} :
    channel.proposalRefusal? = some .turnOverflow ↔
      channel.TakesProposals ∧ channel.lastTurn.toNat + 1 = UInt64.size := by
  rw [proposalRefusal?]
  constructor
  · intro h
    split at h
    · cases h
    · next hopen =>
        rw [Bool.not_eq_true, Bool.or_eq_false_iff] at hopen
        split at h
        · cases h
        · next hpolicy =>
            split at h
            · next hlast =>
                rw [not_and, Bool.not_eq_false] at hpolicy
                exact ⟨⟨hopen.1, hopen.2, hpolicy⟩, hlast⟩
            · cases h
  · rintro ⟨⟨hconcluded, hfinal, hpolicy⟩, hlast⟩
    rw [if_neg (by rw [hconcluded, hfinal]; decide), if_neg, if_pos hlast]
    rintro ⟨hrequire, hunsupported⟩
    rw [hpolicy hrequire] at hunsupported
    cases hunsupported

theorem turnOverflow_iff (channel : Channel) (adjudicator : Adjudicator ρ ε) :
    (channel.step adjudicator .proposeState).answer = .failed (.propose .turnOverflow) ↔
      channel.TakesProposals ∧ channel.lastTurn.toNat + 1 = UInt64.size := by
  rw [← proposalRefusal?_eq_turnOverflow_iff, step_proposeState, outcome_proposeState]
  cases channel.proposalRefusal? with
  | some cause =>
      refine ⟨fun h => congrArg some (Failure.propose.inj (Answer.failed.inj h)), fun h => ?_⟩
      rw [Option.some.inj h]
      rfl
  | none =>
      refine ⟨fun h => ?_, fun h => by cases h⟩
      cases hdraft : Draft.ofState { channel.lastState with turn := channel.lastTurn + 1 } with
      | error cause => rw [hdraft] at h; cases h
      | ok draft => rw [hdraft] at h; cases h

/-! ## Whole runs -/

/-- A proposal hands out a turn above everything that was signed or was the last state so far. -/
theorem lt_handedOut {channel after : Channel} {draft : Draft} (hordered : channel.Ordered)
    (hcounted : channel.Counted) (h : Effect (ρ := ρ) (ε := ε) channel (.proposed draft) after) :
    channel.lastState.turn < draft.state.turn ∧
    ∀ turn entry, channel.signedTurn? turn = some entry → entry.hasSignatures = true →
      turn < draft.state.turn := by
  obtain ⟨hlt, -⟩ := h.handsOut
  exact ⟨UInt64.lt_of_le_of_lt hordered.lastState_le hlt,
    fun turn entry hentry hsigned =>
      UInt64.lt_of_le_of_lt (hcounted.signed_le turn entry hentry hsigned) hlt⟩

theorem pairwise_lt_handedOut {channel : Channel} (h : Reachable channel)
    (operations : List (Adjudicator ρ ε × Operation)) :
    (channel.run operations).Pairwise fun earlier later =>
      ∀ draft, later.answer = .proposed draft →
        earlier.before.lastState.turn < draft.state.turn ∧
        earlier.after.lastState.turn < draft.state.turn := by
  refine (pairwise_lastTurn_run operations channel).imp_of_mem ?_
  intro earlier later hearlier hlater hle draft hproposed
  have heffect := effect_of_answer hlater hproposed
  have hlt := UInt64.lt_of_le_of_lt hle heffect.handsOut.1
  -- The counter was not below the last state on either side of the earlier step.
  obtain ⟨hbefore, hafter⟩ := reachable_of_mem_run h hearlier
  have hgrows := (effect_of_mem_run hearlier).lastTurn_le
  exact ⟨UInt64.lt_of_le_of_lt (UInt64.le_trans hbefore.ordered.lastState_le hgrows) hlt,
    UInt64.lt_of_le_of_lt hafter.ordered.lastState_le hlt⟩

theorem pairwise_handedOut {channel : Channel} (h : Reachable channel)
    (operations : List (Adjudicator ρ ε × Operation)) :
    ((channel.run operations).filterMap (·.answer.handedOut?)).Pairwise (· < ·) := by
  refine List.pairwise_filterMap.mpr ((pairwise_lt_handedOut h operations).imp_of_mem ?_)
  intro earlier later hearlier _ hbelow first hfirst second hsecond
  obtain ⟨drafted, hdrafted, rfl⟩ := Answer.handedOut?_eq_some_iff.mp hfirst
  obtain ⟨draft, hdraft, rfl⟩ := Answer.handedOut?_eq_some_iff.mp hsecond
  have heffect := effect_of_answer hearlier hdrafted
  obtain ⟨-, -, hlast, -⟩ := heffect.handsOut
  rw [← hlast]
  exact (hbelow draft hdraft).2

/-- In every run the turns that are handed out increase strictly, and each is above the turn of
every state that was the last one up to then and above every turn that somebody had signed. The
draft of a turn is the last state but for the turn, and becomes the last state. A proposal that
nothing else stands against fails with an overflow when the counter has reached the last number
there is, and only then, and changes nothing. -/
theorem handed_out_turns_are_never_reused {opening : Opening} {partIndex : UInt64} {config : Config}
    {channel : Channel} (h : create opening partIndex config = .ok channel)
    (operations : List (Adjudicator ρ ε × Operation)) :
    ((channel.run operations).filterMap (·.answer.handedOut?)).Pairwise (· < ·) ∧
    (channel.run operations).Pairwise (fun earlier later =>
      ∀ draft, later.answer = .proposed draft →
        earlier.before.lastState.turn < draft.state.turn ∧
        earlier.after.lastState.turn < draft.state.turn) ∧
    (∀ step ∈ channel.run operations, ∀ draft, step.answer = .proposed draft →
      step.before.lastState.turn < draft.state.turn ∧
      (∀ turn entry, step.before.signedTurn? turn = some entry → entry.hasSignatures = true →
        turn < draft.state.turn) ∧
      draft.state = { step.before.lastState with turn := draft.state.turn } ∧
      step.after.lastState = draft.state) ∧
    (∀ step ∈ channel.run operations, step.operation = .proposeState →
      (step.answer = .failed (.propose .turnOverflow) ↔
        step.before.TakesProposals ∧ step.before.lastTurn.toNat + 1 = UInt64.size) ∧
      (step.answer = .failed (.propose .turnOverflow) → step.after = step.before)) := by
  have hreachable := Reachable.create h
  refine ⟨pairwise_handedOut hreachable operations, pairwise_lt_handedOut hreachable operations,
    fun step hmem draft hproposed => ?_, fun step hmem hoperation => ⟨?_, fun hfailed => ?_⟩⟩
  · have heffect := effect_of_answer hmem hproposed
    obtain ⟨hbefore, -⟩ := reachable_of_mem_run hreachable hmem
    obtain ⟨hlast, hsigned⟩ := lt_handedOut hbefore.ordered hbefore.counted heffect
    obtain ⟨-, hstate, hafter, -⟩ := heffect.handsOut
    exact ⟨hlast, hsigned, hstate, hafter⟩
  · obtain ⟨adjudicator, hstep⟩ := eq_step_operation_of_mem_run hmem
    rw [hoperation] at hstep
    rw [hstep, (step_fields _ _ _).1]
    exact turnOverflow_iff step.before adjudicator
  · exact (effect_of_answer hmem hfailed).eq_of_failed

/-- The last turn there is, as a draft of the solo channel. -/
def soloLast : Draft := ⟨{ soloOpening.state with turn := -1 }, .empty⟩

/-- Two turns are handed out, then the last one there is gets signed, and none is left. -/
def usedUp : List (Adjudicator Unit Unit × Operation) :=
  [(accepting, .proposeState), (accepting, .proposeState), (accepting, .signState soloLast soloKey),
    (accepting, .proposeState)]

/-- The solo channel with all turns used up. -/
def exhausted : Channel :=
  (((solo.step accepting .proposeState).after.step accepting .proposeState).after.step accepting
    (.signState soloLast soloKey)).after

theorem turns_usedUp :
    (solo.run usedUp).map (fun step => (step.answer.handedOut?, step.answer.failure?))
      = [(some 1, none), (some 2, none), (none, none), (none, some (.propose .turnOverflow))] := by
  decide +kernel

theorem filterMap_handedOut? (steps : List (Step ρ ε)) :
    steps.filterMap (·.answer.handedOut?)
      = (steps.map fun step =>
          (step.answer.handedOut?, step.answer.failure?)).filterMap Prod.fst := by
  rw [List.filterMap_map]
  rfl

theorem usedUp_reuses_no_turn :
    (solo.run usedUp).filterMap (·.answer.handedOut?) = [1, 2] ∧
    ((solo.run usedUp).filterMap (·.answer.handedOut?)).Pairwise (· < ·) ∧
    (exhausted.step accepting .proposeState).answer = .failed (.propose .turnOverflow) ∧
    exhausted.TakesProposals ∧ exhausted.lastTurn.toNat + 1 = UInt64.size ∧
    (exhausted.step accepting .proposeState).after = exhausted := by
  obtain ⟨hpairwise, -, -, hoverflow⟩ := handed_out_turns_are_never_reused create_solo usedUp
  have hturns := turns_usedUp
  have hmem : exhausted.step accepting .proposeState ∈ solo.run usedUp := by
    rw [usedUp, run_cons, run_cons, run_cons, run_cons, exhausted]
    exact List.mem_cons_of_mem _ (List.mem_cons_of_mem _ (List.mem_cons_of_mem _
      List.mem_cons_self))
  have hfailed : (exhausted.step accepting .proposeState).answer
      = .failed (.propose .turnOverflow) := by
    simp only [usedUp, run, List.map_cons, List.cons.injEq, Prod.mk.injEq] at hturns
    rw [exhausted]
    exact Answer.eq_failed_of_failure? hturns.2.2.2.1.2
  obtain ⟨hbefore, hoperation⟩ := exhausted.step_fields accepting .proposeState
  obtain ⟨hiff, hafter⟩ := hoverflow _ hmem hoperation
  rw [hbefore] at hiff hafter
  obtain ⟨htakes, hlast⟩ := hiff.mp hfailed
  exact ⟨by rw [filterMap_handedOut?, turns_usedUp]; rfl, hpairwise, hfailed, htakes, hlast,
    hafter hfailed⟩

end DebtChannel.Channel
