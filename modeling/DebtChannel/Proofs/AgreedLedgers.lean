import DebtChannel.Proofs.BuiltOpenings
import DebtChannel.Proofs.DraftCodec
import DebtChannel.Proofs.FreshDrafts
import DebtChannel.Proofs.HeldStates

/-!
# The agreed ledger goes from turn to turn

To a channel the data of a state is bytes, and signing does not look at them. The only place where
they have to be a ledger is the next proposal, which reads those of the last state. If these could
not be read the channel would be stuck, with nothing to go back to. They always can: a proposal of a
channel starts without data, which is the empty ledger, and a draft keeps data that reads
(`Draft.Readable`), whatever is done with it. What a channel holds came from one or the other.

What is read is also what was agreed. A signed draft is the last state right after, so the next
draft begins with the ledger of its data; and if the ledger of the signed draft was approved, its
data is the bytes of that ledger, which read back because no ledger keeps a zero. Bytes are read back
only up to a length of 64 bits, which no memory holds more of, so that much is asked of the data of
the drafts.
-/

namespace DebtChannel

/-- The data of the state is a ledger. -/
def State.CarriesLedger (state : State) : Prop :=
  ∃ ledger, Ledger.decode state.appData = .ok ledger

namespace Draft

variable {draft : Draft}

/-- The state says what the ledger of the draft is. -/
def Approved (draft : Draft) : Prop := draft.state.appData = draft.ledger.encode

theorem approved_after_approve (draft : Draft) : (draft.after .approve).Approved := rfl

theorem Readable.decode_of_approved (h : draft.Readable) (happroved : draft.Approved)
    (hsize : draft.state.appData.length < UInt64.size) :
    Ledger.decode draft.state.appData = .ok draft.ledger := by
  rw [happroved] at hsize ⊢
  exact h.zeroFree.decode_encode hsize

end Draft

theorem Opening.Built.carriesLedger {opening : Opening} (h : opening.Built) :
    opening.state.CarriesLedger := by
  refine ⟨.empty, ?_⟩
  rw [h.composed.appData]
  rfl

namespace Channel

variable {ρ ε : Type} {channel : Channel}

theorem ignoresTurn_carriesLedger : IgnoresTurn State.CarriesLedger := fun _ _ h => h

/-! ## What a proposal reads -/

theorem Proposes.decode_lastState {draft : Draft} (h : channel.Proposes draft) :
    Ledger.decode channel.lastState.appData = .ok draft.ledger := by
  obtain ⟨ledger, hledger, rfl⟩ := exists_ok_of_map_eq_ok h.draft_eq
  exact hledger

/-- No other reason not to hand out a turn speaks of the data. -/
theorem proposalRefusal?_ne_decode (channel : Channel) (cause : Wire.DecodeError) :
    channel.proposalRefusal? ≠ some (.decode cause) := by
  intro h
  unfold proposalRefusal? at h
  split at h
  · cases h
  · split at h
    · cases h
    · split at h <;> cases h

theorem decode_lastState_of_proposeState {cause : Wire.DecodeError}
    (h : proposeState.outcome channel = .error (.decode cause)) :
    Ledger.decode channel.lastState.appData = .error cause := by
  rw [outcome_proposeState] at h
  rcases eq_error_or_of_bind_eq_error h with hrefused | ⟨_, -, h⟩
  · exact absurd (eq_some_of_elim_eq_error hrefused) (channel.proposalRefusal?_ne_decode cause)
  · rcases eq_error_or_of_bind_eq_error h with hdraft | ⟨draft, -, h⟩
    · obtain ⟨found, hfound, hwrap⟩ := exists_error_of_mapError_eq_error hdraft
      obtain rfl := ProposeError.decode.inj hwrap
      exact eq_error_of_map_eq_error hfound
    · cases h

theorem proposeState_of_failed {adjudicator : Adjudicator ρ ε} {operation : Operation}
    {cause : ProposeError}
    (h : (channel.step adjudicator operation).answer = .failed (.propose cause)) :
    proposeState.outcome channel = .error cause := by
  cases yields_of_answer h with
  | notProposed cause =>
      rw [step_proposeState] at h
      cases hmade : proposeState.outcome channel with
      | error found =>
          rw [hmade] at h
          exact congrArg _ (Failure.propose.inj (Answer.failed.inj h))
      | ok made => rw [hmade] at h; cases h

theorem Holds.not_failed_decode (h : channel.Holds State.CarriesLedger)
    (adjudicator : Adjudicator ρ ε) (operation : Operation) (cause : Wire.DecodeError) :
    (channel.step adjudicator operation).answer ≠ .failed (.propose (.decode cause)) := by
  intro hfailed
  obtain ⟨ledger, hledger⟩ := h.last
  have herror := decode_lastState_of_proposeState (proposeState_of_failed hfailed)
  rw [hledger] at herror
  cases herror

/-! ## Whole runs -/

section Run

variable {operations : List (Adjudicator ρ ε × Operation)}

/-- The draft that is proposed right after another one was signed has the ledger of the data that
was signed. -/
theorem decode_signed_of_proposed {earlier later : List (Step ρ ε)} {signing proposing : Step ρ ε}
    (hrun : channel.run operations = earlier ++ signing :: proposing :: later) {draft next : Draft}
    {key : Bytes} {sig : Signature} (hoperation : signing.operation = .signState draft key)
    (hsigned : signing.answer = .signed draft.state sig)
    (hproposed : proposing.answer = .proposed next) :
    Ledger.decode draft.state.appData = .ok next.ledger := by
  have hsigning : signing ∈ channel.run operations := hrun ▸ List.mem_append_cons_self
  have hproposing : proposing ∈ channel.run operations := by
    rw [hrun]
    exact List.mem_append_right _ (List.mem_cons_of_mem _ List.mem_cons_self)
  obtain ⟨adjudicator, hstep⟩ := eq_step_operation_of_mem_run hsigning
  have hlast : signing.after.lastState = draft.state := by
    rw [hoperation] at hstep
    rw [hstep] at hsigned ⊢
    exact lastState_of_signState hsigned
  rw [← hlast, ← before_eq_after hrun]
  exact (effect_of_answer hproposing hproposed).proposes.decode_lastState

/-- The agreed ledger goes from turn to turn. A channel that begins with data that is a ledger, as
those do whose proposal was put together, only ever holds such data; its proposals never fail to
read a ledger, and every draft begins with the ledger of the last state. In particular, a draft that
is proposed right after an approved one was signed has the same ledger. -/
theorem agreed_ledger_carries_over {opening : Opening} {partIndex : UInt64} {config : Config}
    {channel : Channel} (h : create opening partIndex config = .ok channel)
    (operations : List (Adjudicator ρ ε × Operation))
    (hdrafts : ∀ adjudicator draft key, (adjudicator, .signState draft key) ∈ operations →
      draft.Obtainable ∧ draft.state.appData.length < UInt64.size) :
    (opening.Built → opening.state.CarriesLedger) ∧
    (opening.state.CarriesLedger →
      channel.Holds State.CarriesLedger ∧
      (∀ step ∈ channel.run operations, step.after.Holds State.CarriesLedger ∧
        (∀ cause, step.answer ≠ .failed (.propose (.decode cause))) ∧
        ∀ draft, step.answer = .proposed draft →
          Ledger.decode step.before.lastState.appData = .ok draft.ledger) ∧
      ∀ earlier signing proposing later draft key sig next,
        channel.run operations = earlier ++ signing :: proposing :: later →
        signing.operation = .signState draft key → signing.answer = .signed draft.state sig →
        draft.Approved → proposing.answer = .proposed next → next.ledger = draft.ledger) := by
  have hhanded : ∀ step ∈ channel.run operations, ∀ draft key,
      step.operation = .signState draft key →
      draft.Readable ∧ draft.state.appData.length < UInt64.size := by
    intro step hmem draft key hoperation
    obtain ⟨adjudicator, hpair⟩ := exists_mem_of_mem_run hmem
    rw [hoperation] at hpair
    obtain ⟨hobtainable, hsize⟩ := hdrafts adjudicator draft key hpair
    exact ⟨hobtainable.readable, hsize⟩
  refine ⟨fun hbuilt => hbuilt.carriesLedger, fun hstate => ?_⟩
  have hbegin := holds_create h ignoresTurn_carriesLedger hstate
  have hholds : ∀ step ∈ channel.run operations,
      step.before.Holds State.CarriesLedger ∧ step.after.Holds State.CarriesLedger := by
    refine hbegin.of_mem_run ignoresTurn_carriesLedger
      fun step hmem draft key sig hoperation _ => ?_
    obtain ⟨hreadable, hsize⟩ := hhanded step hmem draft key hoperation
    exact hreadable.decodes hsize
  refine ⟨hbegin, fun step hmem => ⟨(hholds step hmem).2, fun cause => ?_, fun draft hproposed => ?_⟩,
    fun earlier signing proposing later draft key sig next hrun hoperation hsigned happroved
      hproposed => ?_⟩
  · obtain ⟨adjudicator, hstep⟩ := eq_step_operation_of_mem_run hmem
    rw [hstep]
    exact (hholds step hmem).1.not_failed_decode adjudicator step.operation cause
  · exact (effect_of_answer hmem hproposed).proposes.decode_lastState
  · have hmem : signing ∈ channel.run operations := by
      rw [hrun]
      exact List.mem_append_right _ List.mem_cons_self
    obtain ⟨hreadable, hsize⟩ := hhanded signing hmem draft key hoperation
    have hread := decode_signed_of_proposed hrun hoperation hsigned hproposed
    exact Except.ok.inj (hread.symm.trans (hreadable.decode_of_approved happroved hsize))

end Run

/-! ## Two members -/

/-- What the first member owes the second, approved. -/
def duoAgreed : Draft := duoDraft.afterAll duoChanges

/-- The first member signs that as turn two. -/
def duoAgreeing : Step Unit Unit :=
  duoProposing.after.step accepting (.signState duoAgreed soloKey)

/-- Turns one and two are handed out, turn two is signed, and turn three is handed out. -/
def duoOperations : List (Adjudicator Unit Unit × Operation) :=
  [(accepting, .proposeState), (accepting, .proposeState),
    (accepting, .signState duoAgreed soloKey), (accepting, .proposeState)]

theorem run_duoOperations :
    duo.run duoOperations = [duo.step accepting .proposeState, duoProposing] ++
      [duoAgreeing, duoAgreeing.after.step accepting .proposeState] := rfl

theorem failures_duoOperations :
    (duo.run duoOperations).map (·.answer.failure?) = [none, none, none, none] := by
  decide +kernel

theorem signed_duoAgreeing :
    ∃ sig next, duoAgreeing.answer = .signed duoAgreed.state sig ∧
      (duoAgreeing.after.step accepting .proposeState).answer = .proposed next := by
  have hfailures := failures_duoOperations
  rw [run_duoOperations] at hfailures
  simp only [List.cons_append, List.nil_append, List.map_cons, List.cons.injEq] at hfailures
  obtain ⟨sig, hsigned⟩ := exists_signed_of_failure?_eq_none hfailures.2.2.1
  obtain ⟨next, hproposed⟩ := exists_proposed_of_failure?_eq_none hfailures.2.2.2.1
  exact ⟨sig, next, hsigned, hproposed⟩

theorem obtainable_duoAgreed : duoAgreed.Obtainable :=
  (@Draft.Obtainable.ofState duoDraft.state _ rfl).afterAll duoChanges

theorem signState_mem_duoOperations {adjudicator : Adjudicator Unit Unit} {draft : Draft}
    {key : Bytes} (h : (adjudicator, .signState draft key) ∈ duoOperations) : draft = duoAgreed := by
  simp only [duoOperations, List.mem_cons, Prod.mk.injEq, reduceCtorEq, and_false,
    Operation.signState.injEq, List.not_mem_nil, or_false, false_or] at h
  exact h.2.1

/-- What was signed is what the next draft begins with. -/
theorem duo_carries_over_what_is_owed :
    duoOpening.Built ∧ create duoOpening 0 = .ok duo ∧ duoAgreed.Obtainable ∧ duoAgreed.Approved ∧
    ∃ sig next, duoAgreeing.answer = .signed duoAgreed.state sig ∧
      (duoAgreeing.after.step accepting .proposeState).answer = .proposed next ∧
      next.ledger.executed ⟨0, 1⟩ "USD" = 5 := by
  have hcreate : create duoOpening 0 = .ok duo := rfl
  obtain ⟨sig, next, hsigned, hproposed⟩ := signed_duoAgreeing
  have happroved : duoAgreed.Approved := Draft.approved_after_approve _
  have hsize : duoAgreed.state.appData.length < UInt64.size := by decide +kernel
  obtain ⟨hcarries, hholds⟩ := agreed_ledger_carries_over hcreate duoOperations
    fun adjudicator draft key hmem => by
      rw [signState_mem_duoOperations hmem]
      exact ⟨obtainable_duoAgreed, hsize⟩
  obtain ⟨-, -, hledger⟩ := hholds (hcarries built_duoOpening)
  have hsame := hledger _ _ _ _ duoAgreed soloKey sig next run_duoOperations
    (step_fields _ _ _).2 hsigned happroved hproposed
  refine ⟨built_duoOpening, hcreate, obtainable_duoAgreed, happroved, sig, next, hsigned,
    hproposed, ?_⟩
  rw [hsame]
  decide +kernel

end Channel

end DebtChannel
