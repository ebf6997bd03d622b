import DebtChannel.Proofs.TurnCounters

/-!
# What fails leaves no trace

An operation can fail in many places: at the key, at the state, at the record, at the policy, at the
data of a draft, at the adjudicator. Wherever it is, the channel afterwards is the channel before.
Of the two operations that reach out to the adjudicator a failed one has made no call, unless it was
this very call that the adjudicator turned down; asking for the holdings is no call.

Nothing is taken back when an operation fails, so both halves come from the order in which it does
things. Four operations are atomic, and their steps make no call (`perform_eq_stepOf`). The other
two write only after their call went through (`run_send`): a failure that does not come from the
adjudicator comes before the call is worked out, and of the two ways in which the adjudicator can
make a deposit fail only the second is a call. For the channel all of this has been summed up as one
case of `Effect`.

For a run this means that its failed operations may as well be left out. What is left does the same
steps and ends in the same channel; in particular an operation that is tried again once the cause of
its failure is gone finds the channel as if it had never been tried.
-/

namespace DebtChannel.Channel

variable {ρ ε : Type}

/-- The error of the adjudicator that made an operation fail, if it was one. -/
def Failure.ofAdjudicator? : Failure ε → Option ε
  | .fund (.contract error) => some error
  | .conclude (.contract error) => some error
  | _ => none

/-! ## The adjudicator's part in a failure -/

section Submissions

variable {channel : Channel} {adjudicator : Adjudicator ρ ε} {index : UInt64} {key : Bytes}
  {gas : Option Gas}

theorem holdings_of_depositCall {cause : FundError ε}
    (h : channel.depositCall adjudicator index key gas = .error cause) {error : ε}
    (herror : (Failure.fund cause).ofAdjudicator? = some error) :
    adjudicator.holdings channel.contract.asset channel.id = .error error := by
  simp only [depositCall] at h
  split at h
  · obtain rfl := Except.error.inj h
    cases herror
  · split at h
    · obtain rfl := Except.error.inj h
      cases herror
    · split at h
      · next answer hholdings =>
          obtain rfl := Except.error.inj h
          obtain rfl := Option.some.inj herror
          exact hholdings
      · cases h

theorem ofAdjudicator?_of_concludeCall {signatures : Signatures} {cause : ConcludeError ε}
    (h : channel.concludeCall adjudicator index key signatures gas = .error cause) :
    (Failure.conclude cause).ofAdjudicator? = none := by
  simp only [concludeCall] at h
  split at h
  · obtain rfl := Except.error.inj h
    rfl
  · split at h
    · obtain rfl := Except.error.inj h
      rfl
    · split at h
      · obtain rfl := Except.error.inj h
        rfl
      · split at h
        · obtain rfl := Except.error.inj h
          rfl
        · cases h

end Submissions

/-- What the adjudicator had to do with the failure of an operation: nothing, or it did not say what
it holds, or it turned down the only call. -/
inductive Blame (channel : Channel) (adjudicator : Adjudicator ρ ε) :
    Failure ε → List Call → Prop where
  | channel (cause : Failure ε) (own : cause.ofAdjudicator? = none) :
      Blame channel adjudicator cause []
  | holdings (cause : Failure ε) (error : ε) (its : cause.ofAdjudicator? = some error)
      (silent : adjudicator.holdings channel.contract.asset channel.id = .error error) :
      Blame channel adjudicator cause []
  | submit (cause : Failure ε) (error : ε) (call : Call) (its : cause.ofAdjudicator? = some error)
      (refused : adjudicator.submit call = .error error) : Blame channel adjudicator cause [call]

theorem Blame.calls_eq {channel : Channel} {adjudicator : Adjudicator ρ ε} {cause : Failure ε}
    {calls : List Call} (h : Blame channel adjudicator cause calls) :
    (cause.ofAdjudicator? = none → calls = []) ∧
    (∀ error, cause.ofAdjudicator? = some error →
      (calls = [] ∧ adjudicator.holdings channel.contract.asset channel.id = .error error) ∨
      ∃ call, calls = [call] ∧ adjudicator.submit call = .error error) := by
  cases h with
  | channel own =>
      refine ⟨fun _ => rfl, fun error its => ?_⟩
      rw [own] at its
      cases its
  | holdings error its silent =>
      refine ⟨fun _ => rfl, fun other hother => .inl ⟨rfl, ?_⟩⟩
      obtain rfl := Option.some.inj (its.symm.trans hother)
      exact silent
  | submit error call its refused =>
      refine ⟨fun own => ?_, fun other hother => .inr ⟨call, rfl, ?_⟩⟩
      · rw [own] at its
        cases its
      · obtain rfl := Option.some.inj (its.symm.trans hother)
        exact refused

theorem blame_of_stepOf {E α : Type} {channel : Channel} {adjudicator : Adjudicator ρ ε}
    {operation : Operation} {done : α → Answer ρ ε} {failed : E → Failure ε}
    {result : Except E (α × Channel)} {cause : Failure ε}
    (hdone : ∀ value, done value ≠ .failed cause)
    (hown : ∀ found, (failed found).ofAdjudicator? = none)
    (h : (channel.stepOf operation done failed result).answer = .failed cause) :
    Blame channel adjudicator cause (channel.stepOf operation done failed result).calls := by
  cases result with
  | error found =>
      obtain rfl := Answer.failed.inj h
      exact .channel _ (hown found)
  | ok made => exact absurd h (hdone made.1)

theorem blame_of_failed {channel : Channel} {adjudicator : Adjudicator ρ ε} {operation : Operation}
    {cause : Failure ε} (h : (channel.step adjudicator operation).answer = .failed cause) :
    Blame channel adjudicator cause (channel.step adjudicator operation).calls := by
  cases operation with
  | approveInit key =>
      rw [step_approveInit] at h ⊢
      exact blame_of_stepOf (fun _ h => by cases h) (fun _ => rfl) h
  | approveFunding key =>
      rw [step_approveFunding] at h ⊢
      exact blame_of_stepOf (fun _ h => by cases h) (fun _ => rfl) h
  | signState draft key =>
      rw [step_signState] at h ⊢
      exact blame_of_stepOf (fun _ h => by cases h) (fun _ => rfl) h
  | proposeState =>
      rw [step_proposeState] at h ⊢
      exact blame_of_stepOf (fun _ h => by cases h) (fun _ => rfl) h
  | fund index key gas =>
      rcases channel.step_fund_cases adjudicator index key gas with
        ⟨error, hcall, heq⟩ | ⟨call, error, -, hsubmit, heq⟩ | ⟨call, receipt, -, -, heq⟩
      · rw [heq] at h ⊢
        obtain rfl := Answer.failed.inj h
        cases hits : (Failure.fund error).ofAdjudicator? with
        | none => exact .channel _ hits
        | some answer => exact .holdings _ answer hits (holdings_of_depositCall hcall hits)
      · rw [heq] at h ⊢
        obtain rfl := Answer.failed.inj h
        exact .submit _ error call rfl hsubmit
      · rw [heq] at h
        cases h
  | conclude index key signatures gas =>
      rcases channel.step_conclude_cases adjudicator index key signatures gas with
        ⟨error, hcall, heq⟩ | ⟨call, error, -, hsubmit, heq⟩ | ⟨call, receipt, -, -, heq⟩
      · rw [heq] at h ⊢
        obtain rfl := Answer.failed.inj h
        exact .channel _ (ofAdjudicator?_of_concludeCall hcall)
      · rw [heq] at h ⊢
        obtain rfl := Answer.failed.inj h
        exact .submit _ error call rfl hsubmit
      · rw [heq] at h
        cases h

/-! ## Runs without their failed operations -/

theorem after_of_failure?_isSome {channel : Channel} {adjudicator : Adjudicator ρ ε}
    {operation : Operation}
    (h : (channel.step adjudicator operation).answer.failure?.isNone = false) :
    (channel.step adjudicator operation).after = channel := by
  have heffect := channel.step_effect adjudicator operation
  cases hanswer : (channel.step adjudicator operation).answer with
  | failed cause =>
      rw [hanswer] at heffect
      exact heffect.eq_of_failed
  | _ => rw [hanswer] at h; cases h

/-- The operations of a run that do not fail. -/
def succeeding (channel : Channel) (operations : List (Adjudicator ρ ε × Operation)) :
    List (Adjudicator ρ ε × Operation) :=
  ((operations.zip (channel.run operations)).filter
    fun pair => pair.2.answer.failure?.isNone).map Prod.fst

theorem succeeding_cons (channel : Channel) (adjudicator : Adjudicator ρ ε) (operation : Operation)
    (operations : List (Adjudicator ρ ε × Operation)) :
    channel.succeeding ((adjudicator, operation) :: operations)
      = if (channel.step adjudicator operation).answer.failure?.isNone then
          (adjudicator, operation)
            :: (channel.step adjudicator operation).after.succeeding operations
        else (channel.step adjudicator operation).after.succeeding operations := by
  rw [succeeding, run_cons, List.zip_cons_cons, List.filter_cons]
  split <;> rfl

theorem run_succeeding :
    ∀ (operations : List (Adjudicator ρ ε × Operation)) (channel : Channel),
      channel.run (channel.succeeding operations)
          = (channel.run operations).filter (·.answer.failure?.isNone) ∧
        channel.afterAll (channel.run (channel.succeeding operations))
          = channel.afterAll (channel.run operations) := by
  intro operations
  induction operations with
  | nil => intro channel; exact ⟨rfl, rfl⟩
  | cons first operations ih =>
      obtain ⟨adjudicator, operation⟩ := first
      intro channel
      obtain ⟨hrun, hafter⟩ := ih (channel.step adjudicator operation).after
      rw [succeeding_cons, run_cons, List.filter_cons, afterAll_cons]
      cases hfailure : (channel.step adjudicator operation).answer.failure?.isNone with
      | true =>
          rw [if_pos rfl, if_pos rfl, run_cons, afterAll_cons, hrun]
          exact ⟨rfl, by rw [← hrun]; exact hafter⟩
      | false =>
          rw [if_neg (by decide), if_neg (by decide)]
          rw [after_of_failure?_isSome hfailure] at hrun hafter ⊢
          exact ⟨hrun, hafter⟩

theorem map_failure?_filter (steps : List (Step ρ ε)) :
    (steps.filter (·.answer.failure?.isNone)).map (·.answer.failure?)
      = (steps.map (·.answer.failure?)).filter Option.isNone := by
  rw [List.filter_map]
  rfl

/-- A failed operation leaves the channel as it was, and has made no call but one that the
adjudicator turned down. So a run does the same, and comes to the same channel, without the
operations that fail in it. -/
theorem failed_operations_leave_no_trace (channel : Channel) :
    (∀ (adjudicator : Adjudicator ρ ε) operation cause,
      (channel.step adjudicator operation).answer = .failed cause →
      (channel.step adjudicator operation).after = channel ∧
      (cause.ofAdjudicator? = none → (channel.step adjudicator operation).calls = []) ∧
      (∀ error, cause.ofAdjudicator? = some error →
        ((channel.step adjudicator operation).calls = [] ∧
          adjudicator.holdings channel.contract.asset channel.id = .error error) ∨
        ∃ call, (channel.step adjudicator operation).calls = [call] ∧
          adjudicator.submit call = .error error)) ∧
    ∀ operations : List (Adjudicator ρ ε × Operation),
      channel.run (channel.succeeding operations)
          = (channel.run operations).filter (·.answer.failure?.isNone) ∧
        channel.afterAll (channel.run (channel.succeeding operations))
          = channel.afterAll (channel.run operations) := by
  refine ⟨fun adjudicator operation cause hfailed => ?_,
    fun operations => run_succeeding operations channel⟩
  have heffect := channel.step_effect adjudicator operation
  rw [hfailed] at heffect
  exact ⟨heffect.eq_of_failed, (blame_of_failed hfailed).calls_eq⟩

/-- An adjudicator that turns every call down. -/
def refusing : Adjudicator Unit Unit := ⟨1, fun _ _ => .ok 0, fun _ => .error ()⟩

/-- The solo channel with the final state signed. -/
def closing : Channel := (solo.step accepting (.signState ⟨soloFinal, .empty⟩ soloKey)).after

/-- The final state is signed, and the channel is settled by it at the second try. -/
def settledInTheEnd : List (Adjudicator Unit Unit × Operation) :=
  [(accepting, .signState ⟨soloFinal, .empty⟩ soloKey), (refusing, .conclude 0 soloKey ∅ none),
    (accepting, .conclude 0 soloKey ∅ none)]

theorem failures_settledInTheEnd :
    (solo.run settledInTheEnd).map (·.answer.failure?)
      = [none, some (.conclude (.contract ())), none] := by
  decide +kernel

/-- The first try has made its call and left the channel as it was; without it the run goes on and
ends the same. -/
theorem settledInTheEnd_without_first_try :
    (closing.step refusing (.conclude 0 soloKey ∅ none)).answer
      = .failed (.conclude (.contract ())) ∧
    (closing.step refusing (.conclude 0 soloKey ∅ none)).after = closing ∧
    (∃ call, (closing.step refusing (.conclude 0 soloKey ∅ none)).calls = [call]) ∧
    (solo.run (solo.succeeding settledInTheEnd)).map (·.answer.failure?) = [none, none] ∧
    solo.afterAll (solo.run (solo.succeeding settledInTheEnd))
      = solo.afterAll (solo.run settledInTheEnd) := by
  have hfailures := failures_settledInTheEnd
  have hanswer : (closing.step refusing (.conclude 0 soloKey ∅ none)).answer
      = .failed (.conclude (.contract ())) := by
    simp only [settledInTheEnd, run, List.map_cons, List.cons.injEq] at hfailures
    rw [closing]
    exact Answer.eq_failed_of_failure? hfailures.2.1
  obtain ⟨hafter, -, hcalls⟩ :=
    (failed_operations_leave_no_trace closing).1 refusing (.conclude 0 soloKey ∅ none) _ hanswer
  obtain ⟨hrun, hend⟩ := (failed_operations_leave_no_trace solo).2 settledInTheEnd
  refine ⟨hanswer, hafter, ?_, ?_, hend⟩
  · rcases hcalls () rfl with ⟨-, hsilent⟩ | ⟨call, hcall, -⟩
    · have hheld : refusing.holdings closing.contract.asset closing.id = .ok 0 := rfl
      rw [hheld] at hsilent
      cases hsilent
    · exact ⟨call, hcall⟩
  · rw [hrun, map_failure?_filter, hfailures]
    rfl

end DebtChannel.Channel
