import DebtChannel.Proofs.FailedOperations

/-!
# Every deposit is covered by the signed state before funding

Whoever deposits gives money away, and gets it back only by a state that everyone signed. The state
before funding is such a state, and a deposit looks at one bit of it, whether its slots are filled.
What the bit stands for is the business of `Sound`: a filled slot holds the signature of its own
participant, over the hash that is on record, and that hash is still the one of the state that the
channel began with (`Keeps`). So at the moment of any call, be it accepted or turned down, everyone
has signed the state that gives the deposit back.

What a call says is worked out from the channel at that moment. The members, the contracts and the
fixed part are then still those of the beginning (`SameTerms`), so in a run every deposit goes into
the channel that was created, and is the amount that was agreed on for its participant.

The flag of the deposit is set by an accepted call and by nothing else, so at the end of a run it
says whether there was one.
-/

namespace DebtChannel.Channel

variable {ρ ε : Type} {channel : Channel}

/-! ## One call -/

section Call

variable {adjudicator : Adjudicator ρ ε} {operation : Operation} {terms : TransactionTerms}
  {asset : Address} {channelId : Hash} {held amount : Uint256}

/-- What is known when a deposit reaches the adjudicator. -/
theorem deposit_of_mem_calls
    (h : Call.deposit terms asset channelId held amount
      ∈ (channel.step adjudicator operation).calls) :
    channel.preFundComplete = true ∧
      (∃ index key participant, operation = .fund index key terms.gas ∧
        channel.participants[index.toNat]? = some participant ∧
        PrivateKey.ofBytes key = .ok terms.signer.key ∧
        terms.signer.address = participant.address ∧ terms.sender = participant.address ∧
        amount = participant.lockedAmount) ∧
      asset = channel.contract.asset ∧ channelId = channel.id ∧
      adjudicator.holdings asset channelId = .ok held ∧
      terms.value = (if asset = Address.zero then amount else 0) := by
  rcases mem_calls_step h with
    ⟨index, key, gas, hoperation, hdeposit⟩ | ⟨index, key, signatures, gas, -, hconclude⟩
  · obtain ⟨hcomplete, participant, transactor, answer, hplace, hkey, haddress, hheld, hcall⟩ :=
      depositCall_ok hdeposit
    obtain ⟨rfl, rfl, rfl, rfl, rfl⟩ := Call.deposit.inj hcall
    exact ⟨hcomplete, ⟨index, key, participant, hoperation, hplace, hkey, haddress, rfl, rfl⟩, rfl,
      rfl, hheld, rfl⟩
  · obtain ⟨-, -, participant, transactor, settlement, -, -, -, -, hcall⟩ :=
      concludeCall_ok hconclude
    cases hcall

end Call

/-- At a complete turn zero everyone has signed the state that is on record for it. -/
theorem Sound.signed_of_preFundComplete (h : channel.Sound)
    (hcomplete : channel.preFundComplete = true) {index : Nat} {participant : Participant}
    (hplace : channel.participants[index]? = some participant) :
    ∃ sig, channel.turns.preFund.signatureOf? index = some sig ∧
      sig.recoverSigner channel.turns.preFund.hash = .ok participant.address := by
  have hentry : channel.signedTurn? 0 = some channel.turns.preFund := rfl
  exact (h.isComplete_iff hentry).mp hcomplete index participant hplace

theorem preFund_create {opening : Opening} {partIndex : UInt64} {config : Config}
    (h : create opening partIndex config = .ok channel) :
    channel.turns.preFund = .ofState opening.state := by
  obtain ⟨-, -, rfl⟩ := create_ok h
  rfl

/-! ## Whether there was one -/

/-- Whether a deposit was made by the operation. -/
def Answer.isDeposited : Answer ρ ε → Bool
  | .deposited _ => true
  | _ => false

theorem depositSubmitted_advance (channel : Channel) (state : State) :
    (channel.advance state).depositSubmitted = channel.depositSubmitted := by
  unfold advance
  split <;> rfl

theorem Effect.depositSubmitted {after : Channel} {answer : Answer ρ ε}
    (h : Effect channel answer after) :
    after.depositSubmitted = (channel.depositSubmitted || answer.isDeposited) := by
  cases h with
  | failed cause => exact (Bool.or_false _).symm
  | approved index sig hadmits => exact (Bool.or_false _).symm
  | signed state index sig hadmits =>
      exact (depositSubmitted_advance _ state).trans (Bool.or_false _).symm
  | proposed draft hproposes => exact (Bool.or_false _).symm
  | deposited receipt hcomplete => exact (Bool.or_true _).symm
  | settled receipt hconcluded hfinal => exact (Bool.or_false _).symm

theorem depositSubmitted_afterAll :
    ∀ (operations : List (Adjudicator ρ ε × Operation)) (channel : Channel),
      (channel.afterAll (channel.run operations)).depositSubmitted
        = (channel.depositSubmitted || (channel.run operations).any (·.answer.isDeposited)) := by
  intro operations
  induction operations with
  | nil => intro channel; exact (Bool.or_false _).symm
  | cons first operations ih =>
      obtain ⟨adjudicator, operation⟩ := first
      intro channel
      rw [run_cons, afterAll_cons, ih, List.any_cons,
        (channel.step_effect adjudicator operation).depositSubmitted, Bool.or_assoc]

/-- An operation makes a deposit exactly if a call of it that makes one is accepted. -/
theorem isDeposited_step_iff {adjudicator : Adjudicator ρ ε} {operation : Operation} :
    (channel.step adjudicator operation).answer.isDeposited = true ↔
      ∃ terms asset channelId held amount receipt,
        Call.deposit terms asset channelId held amount
            ∈ (channel.step adjudicator operation).calls ∧
          adjudicator.submit (.deposit terms asset channelId held amount) = .ok receipt := by
  constructor
  · intro h
    obtain ⟨receipt, hanswer⟩ : ∃ receipt,
        (channel.step adjudicator operation).answer = .deposited receipt := by
      cases hanswer : (channel.step adjudicator operation).answer with
      | deposited receipt => exact ⟨receipt, rfl⟩
      | _ =>
          rw [hanswer] at h
          cases h
    cases yields_of_answer hanswer with
    | deposited index key gas receipt =>
        rcases channel.step_fund_cases adjudicator index key gas with
          ⟨cause, -, heq⟩ | ⟨call, cause, -, -, heq⟩ | ⟨call, made, hcall, hsubmit, heq⟩
        · rw [heq] at h
          cases h
        · rw [heq] at h
          cases h
        · obtain ⟨-, participant, transactor, held, -, -, -, -, rfl⟩ := depositCall_ok hcall
          rw [heq]
          exact ⟨_, _, _, _, _, made, List.mem_singleton_self _, hsubmit⟩
  · rintro ⟨terms, asset, channelId, held, amount, receipt, hmem, hsubmit⟩
    obtain ⟨-, ⟨index, key, -, rfl, -⟩, -⟩ := deposit_of_mem_calls hmem
    have hcall := mem_calls_send hmem
    rw [step_fund_of_ok hcall hsubmit]
    rfl

/-! ## Whole runs -/

/-- Whatever a run does and whatever the adjudicator answers, each deposit that is handed in, be it
accepted or not, goes into the channel that the run began with. It is the locked amount of a
participant, sent by that participant with its own key, and comes along with the call if the asset
is the native coin; it expects the adjudicator to hold what it has just said to hold. At that moment
turn zero has the state that the channel began with and a signature over it of every participant.
At the end of the run the channel counts as funded exactly if one of these calls was accepted. -/
theorem deposits_are_covered_by_signatures {opening : Opening} {partIndex : UInt64}
    {config : Config} (h : create opening partIndex config = .ok channel)
    (operations : List (Adjudicator ρ ε × Operation)) :
    (∀ adjudicator operation step,
      ((adjudicator, operation), step) ∈ operations.zip (channel.run operations) →
      ∀ terms asset channelId held amount,
        Call.deposit terms asset channelId held amount ∈ step.calls →
        (∃ index key participant, operation = .fund index key terms.gas ∧
          channel.participants[index.toNat]? = some participant ∧
          PrivateKey.ofBytes key = .ok terms.signer.key ∧
          terms.signer.address = participant.address ∧ terms.sender = participant.address ∧
          amount = participant.lockedAmount) ∧
        asset = channel.contract.asset ∧ channelId = channel.id ∧
        adjudicator.holdings asset channelId = .ok held ∧
        terms.value = (if asset = Address.zero then amount else 0) ∧
        ∃ entry, step.before.signedTurn? 0 = some entry ∧ entry.state = opening.state ∧
          entry.hash = opening.state.hash ∧
          ∀ index participant, channel.participants[index]? = some participant →
            ∃ sig, entry.signatureOf? index = some sig ∧
              sig.recoverSigner entry.hash = .ok participant.address) ∧
    ((channel.afterAll (channel.run operations)).depositSubmitted = true ↔
      ∃ adjudicator operation step,
        ((adjudicator, operation), step) ∈ operations.zip (channel.run operations) ∧
        ∃ terms asset channelId held amount receipt,
          Call.deposit terms asset channelId held amount ∈ step.calls ∧
            adjudicator.submit (.deposit terms asset channelId held amount) = .ok receipt) := by
  constructor
  · intro adjudicator operation step hpair terms asset channelId held amount hcall
    obtain ⟨hmem, hstep⟩ := eq_step_of_mem_zip hpair
    rw [hstep] at hcall
    obtain ⟨hcomplete, hsender, hasset, hid, hheld, hvalue⟩ := deposit_of_mem_calls hcall
    have hterms := (sameTerms_of_mem_run hmem).1
    have hsound := (reachable_of_mem_run (.create h) hmem).1.sound
    obtain ⟨hstate, hhash⟩ := (keeps_of_mem_run hmem).1.preFund
    rw [preFund_create h] at hstate hhash
    rw [hterms.participants_eq] at hsender
    rw [hterms.contract_eq] at hasset
    rw [id, hterms.fixed_eq] at hid
    refine ⟨hsender, hasset, hid, hheld, hvalue, step.before.turns.preFund, rfl, hstate, hhash,
      fun index participant hplace => ?_⟩
    rw [← hterms.participants_eq] at hplace
    exact hsound.signed_of_preFundComplete hcomplete hplace
  · have hbegin : channel.depositSubmitted = false := by
      obtain ⟨-, -, rfl⟩ := create_ok h
      rfl
    rw [depositSubmitted_afterAll, hbegin, Bool.false_or, List.any_eq_true]
    constructor
    · rintro ⟨step, hmem, hdeposited⟩
      obtain ⟨adjudicator, operation, hpair⟩ := exists_mem_zip_of_mem_run hmem
      refine ⟨adjudicator, operation, step, hpair, ?_⟩
      rw [(eq_step_of_mem_zip hpair).2] at hdeposited ⊢
      exact isDeposited_step_iff.mp hdeposited
    · rintro ⟨adjudicator, operation, step, hpair, haccepted⟩
      obtain ⟨hmem, hstep⟩ := eq_step_of_mem_zip hpair
      refine ⟨step, hmem, ?_⟩
      rw [hstep] at haccepted ⊢
      exact isDeposited_step_iff.mpr haccepted

/-- The member of the solo channel signs the state before funding and makes its deposit, which the
adjudicator accepts at the second try. -/
def soloFunding : List (Adjudicator Unit Unit × Operation) :=
  [(accepting, .approveInit soloKey), (refusing, .fund 0 soloKey none),
    (accepting, .fund 0 soloKey none)]

theorem failures_soloFunding :
    (solo.run soloFunding).map (fun step => (step.answer.failure?, step.calls.length))
      = [(none, 0), (some (.fund (.contract ())), 1), (none, 1)] := by
  decide +kernel

/-- The first of the two tries. -/
def soloDepositing : Step Unit Unit :=
  (solo.step accepting (.approveInit soloKey)).after.step refusing (.fund 0 soloKey none)

/-- The second one. -/
def soloDeposited : Step Unit Unit := soloDepositing.after.step accepting (.fund 0 soloKey none)

theorem exists_deposit_of_fund {adjudicator : Adjudicator ρ ε} {index : UInt64} {key : Bytes}
    {gas : Option Gas} (h : (channel.step adjudicator (.fund index key gas)).calls.length = 1) :
    ∃ terms asset channelId held amount, Call.deposit terms asset channelId held amount
      ∈ (channel.step adjudicator (.fund index key gas)).calls := by
  obtain ⟨call, hcall⟩ := List.length_eq_one_iff.mp h
  have hmem : call ∈ (channel.step adjudicator (.fund index key gas)).calls := by
    rw [hcall]
    exact List.mem_singleton_self call
  rcases mem_calls_step hmem with
    ⟨_, _, _, -, hdeposit⟩ | ⟨_, _, _, _, hoperation, -⟩
  · obtain ⟨-, participant, transactor, held, -, -, -, -, rfl⟩ := depositCall_ok hdeposit
    exact ⟨_, _, _, _, _, hmem⟩
  · cases hoperation

theorem run_soloFunding :
    solo.run soloFunding
      = [solo.step accepting (.approveInit soloKey), soloDepositing, soloDeposited] := rfl

theorem length_calls_soloFunding :
    soloDepositing.calls.length = 1 ∧ soloDeposited.calls.length = 1 := by
  have hcalls := failures_soloFunding
  rw [run_soloFunding] at hcalls
  simp only [List.map_cons, List.cons.injEq, Prod.mk.injEq] at hcalls
  exact ⟨hcalls.2.1.2, hcalls.2.2.1.2⟩

/-- Both tries are covered by the member's signature, and the second one makes the channel count as
funded. -/
theorem solo_deposits_are_covered :
    create soloOpening 0 = .ok solo ∧
    (solo.afterAll (solo.run soloFunding)).depositSubmitted = true ∧
    ((refusing, .fund 0 soloKey none), soloDepositing)
      ∈ soloFunding.zip (solo.run soloFunding) ∧
    ∃ terms asset channelId,
      Call.deposit terms asset channelId 0 100 ∈ soloDepositing.calls ∧ terms.value = 100 ∧
      ∃ entry sig, soloDepositing.before.signedTurn? 0 = some entry ∧
        entry.signatureOf? 0 = some sig ∧
        sig.recoverSigner soloOpening.state.hash = .ok terms.sender := by
  obtain ⟨hcovered, hfunded⟩ := deposits_are_covered_by_signatures create_solo soloFunding
  have hzip : soloFunding.zip (solo.run soloFunding)
      = [((accepting, .approveInit soloKey), solo.step accepting (.approveInit soloKey)),
        ((refusing, .fund 0 soloKey none), soloDepositing),
        ((accepting, .fund 0 soloKey none), soloDeposited)] := by
    rw [run_soloFunding, soloFunding, List.zip_cons_cons, List.zip_cons_cons, List.zip_cons_cons,
      List.zip_nil_left]
  obtain ⟨hfirst, hsecond⟩ := length_calls_soloFunding
  obtain ⟨terms, asset, channelId, held, amount, hcall⟩ := exists_deposit_of_fund hfirst
  obtain ⟨terms', asset', channelId', held', amount', hcall'⟩ := exists_deposit_of_fund hsecond
  have hpair : ((refusing, .fund 0 soloKey none), soloDepositing)
      ∈ soloFunding.zip (solo.run soloFunding) := by
    rw [hzip]
    exact List.mem_cons_of_mem _ List.mem_cons_self
  have hpair' : ((accepting, .fund 0 soloKey none), soloDeposited)
      ∈ soloFunding.zip (solo.run soloFunding) := by
    rw [hzip]
    exact List.mem_cons_of_mem _ (List.mem_cons_of_mem _ List.mem_cons_self)
  obtain ⟨⟨index, key, participant, hoperation, hplace, -, -, hsender, rfl⟩, rfl, rfl, hheld, hvalue,
    entry, hentry, -, hhash, hsigned⟩ := hcovered _ _ _ hpair _ _ _ _ _ hcall
  obtain ⟨rfl, -, -⟩ := Operation.fund.inj hoperation
  obtain rfl := Option.some.inj hplace
  obtain rfl := Except.ok.inj hheld
  obtain ⟨sig, hsig, hrecover⟩ := hsigned 0 _ rfl
  rw [← hsender, hhash] at hrecover
  exact ⟨create_solo,
    hfunded.mpr ⟨_, _, _, hpair', terms', asset', channelId', held', amount', (), hcall', rfl⟩,
    hpair, terms, _, _, hcall, hvalue, entry, sig, hentry, hsig, hrecover⟩

end DebtChannel.Channel
