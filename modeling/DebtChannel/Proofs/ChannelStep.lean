import DebtChannel.Proofs.Atomicity
import DebtChannel.Proofs.Results
import DebtChannel.Proofs.SignedTurn

/-!
# What one operation can do to a channel

Six operations run through a good dozen functions, each with its own row of tests, but there are
only a few things that can come of one of them: nothing at all, a signature on record, the same with
the signed state as the last one, a turn handed out, or one of two flags set. `Effect` lists them
with what is known at that moment, and `step_effect` is where the operations are taken apart for it;
what they leave behind when they fail is known from the order of their parts by then. Every
invariant is proved from this list, and `forall_mem_run` carries it from one step to a whole run.
Which of them an operation can come to is another list, `Yields`.

Signing gets a record of its own, `Admits`: what was looked at before the signature went on record,
and nothing about the key, since the rest of the theory cares about who signed and not about how.
-/

namespace DebtChannel

namespace Channel

variable {ρ ε : Type}

/-! ## Putting a signature on record -/

/-- What has been looked at before a signature over a state is put on record. -/
structure Admits (channel : Channel) (state : State) (index : Nat) (sig : Signature) : Prop where
  fixed_eq : state.toFixedPart = channel.fixed
  fresh : ∀ latest, channel.latestSupported = some latest → latest ≤ state.turn
  agrees : ∀ entry, channel.signedTurn? state.turn = some entry → entry.hash = state.hash
  signed : ∃ account, sig.recoverSigner state.hash = .ok account ∧
    state.participantIndex? account = some index

theorem entryFor_of_signedTurn? {channel : Channel} {state : State} {entry : SignedTurn}
    (h : channel.signedTurn? state.turn = some entry) : channel.entryFor state = entry := by
  rw [entryFor, h, Option.getD_some]

theorem Admits.entryFor_hash {channel : Channel} {state : State} {index : Nat} {sig : Signature}
    (h : channel.Admits state index sig) : (channel.entryFor state).hash = state.hash := by
  cases hentry : channel.signedTurn? state.turn with
  | none => rw [entryFor, hentry, Option.getD_none]; rfl
  | some entry => rw [entryFor_of_signedTurn? hentry]; exact h.agrees entry hentry

theorem refusal?_eq_none_iff {channel : Channel} {state : State} :
    channel.refusal? state = none ↔
      state.toFixedPart = channel.fixed ∧
      (∀ latest, channel.latestSupported = some latest → latest ≤ state.turn) ∧
      (∀ entry, channel.signedTurn? state.turn = some entry → entry.hash = state.hash) := by
  unfold refusal? State.hasFixedPart
  by_cases hfixed : state.toFixedPart = channel.fixed
  · rw [if_neg (by simp [hfixed])]
    cases channel.latestSupported with
    | none => cases channel.signedTurn? state.turn <;> simp [hfixed]
    | some latest =>
        rw [Option.filter_some]
        by_cases hlt : state.turn < latest
        · have hstale : ¬ latest ≤ state.turn := UInt64.not_le.mpr hlt
          rw [if_pos (by simpa using hlt)]
          simp [hstale]
        · have hle : latest ≤ state.turn := UInt64.not_lt.mp hlt
          rw [if_neg (by simpa using hlt)]
          cases channel.signedTurn? state.turn <;> simp [hfixed, hle]
  · rw [if_pos (by simpa using hfixed)]
    simp [hfixed]

theorem signatureBy_ok {state : State} {key : PrivateKey} {sig : Signature} {index : Nat}
    (h : signatureBy state key = .ok (sig, index)) :
    key.signMessage state.hash = .ok sig ∧
      ∃ account, sig.recoverSigner state.hash = .ok account ∧
        state.participantIndex? account = some index := by
  unfold signatureBy at h
  obtain ⟨made, hmade, h⟩ := exists_ok_of_bind_eq_ok h
  obtain ⟨account, haccount, h⟩ := exists_ok_of_bind_eq_ok h
  cases hplace : state.participantIndex? account with
  | none => rw [hplace] at h; cases h
  | some place =>
      rw [hplace] at h
      obtain ⟨rfl, rfl⟩ := Prod.mk.inj (Except.ok.inj h)
      exact ⟨eq_ok_of_mapError_eq_ok hmade, account, eq_ok_of_mapError_eq_ok haccount, hplace⟩

theorem admits_iff {channel : Channel} {state : State} {index : Nat} {sig : Signature} :
    channel.Admits state index sig ↔
      channel.refusal? state = none ∧
      ∃ account, sig.recoverSigner state.hash = .ok account ∧
        state.participantIndex? account = some index := by
  rw [refusal?_eq_none_iff]
  constructor
  · rintro ⟨hfixed, hfresh, hagrees, hsigned⟩
    exact ⟨⟨hfixed, hfresh, hagrees⟩, hsigned⟩
  · rintro ⟨⟨hfixed, hfresh, hagrees⟩, hsigned⟩
    exact ⟨hfixed, hfresh, hagrees, hsigned⟩

/-- A state is signed with a key that is one, if nothing speaks against it whoever signs and a
signature of a participant comes out. The signature is then on record. -/
theorem sign_eq_ok_iff {channel after : Channel} {state : State} {key : Bytes} {sig : Signature} :
    (sign state key).outcome channel = .ok (sig, after) ↔
      ∃ secret index, PrivateKey.ofBytes key = .ok secret ∧ channel.refusal? state = none ∧
        signatureBy state secret = .ok (sig, index) ∧ after = channel.record state index sig := by
  rw [outcome_sign]
  constructor
  · intro h
    obtain ⟨secret, hkey, h⟩ := exists_ok_of_bind_eq_ok h
    obtain ⟨_, hnone, h⟩ := exists_ok_of_bind_eq_ok h
    obtain ⟨⟨made, index⟩, hby, h⟩ := exists_ok_of_bind_eq_ok h
    obtain ⟨rfl, rfl⟩ := Prod.mk.inj (Except.ok.inj h)
    exact ⟨secret, index, eq_ok_of_mapError_eq_ok hkey, eq_none_of_elim_eq_ok hnone, hby, rfl⟩
  · rintro ⟨secret, index, hkey, hnone, hby, rfl⟩
    rw [hnone]
    exact bind_eq_ok (mapError_eq_ok hkey) (bind_eq_ok rfl (bind_eq_ok hby rfl))

theorem sign_ok {channel after : Channel} {state : State} {key : Bytes} {sig : Signature}
    (h : (sign state key).outcome channel = .ok (sig, after)) :
    ∃ index, channel.Admits state index sig ∧ after = channel.record state index sig := by
  obtain ⟨secret, index, -, hnone, hby, heq⟩ := sign_eq_ok_iff.mp h
  exact ⟨index, admits_iff.mpr ⟨hnone, (signatureBy_ok hby).2⟩, heq⟩

/-- What one channel signs is signed with the same key by every channel that does not refuse it. -/
theorem sign_of_sign {channel other after : Channel} {state : State} {key : Bytes}
    {sig : Signature} (h : (sign state key).outcome channel = .ok (sig, after))
    (hnone : other.refusal? state = none) :
    ∃ index, (sign state key).outcome other = .ok (sig, other.record state index sig) := by
  obtain ⟨secret, index, hkey, -, hby, -⟩ := sign_eq_ok_iff.mp h
  exact ⟨index, sign_eq_ok_iff.mpr ⟨secret, index, hkey, hnone, hby, rfl⟩⟩

theorem getElem?_of_participantIndex? {state : State} {account : Address} {index : Nat}
    (h : state.participantIndex? account = some index) :
    state.participants[index]? = some account := by
  unfold State.participantIndex? at h
  obtain ⟨hlt, heq, -⟩ := List.findIdx?_eq_some_iff_getElem.mp h
  rw [List.getElem?_eq_getElem hlt, eq_of_beq heq]

theorem Admits.index_lt {channel : Channel} {state : State} {index : Nat} {sig : Signature}
    (h : channel.Admits state index sig) : index < channel.fixed.participants.length := by
  obtain ⟨account, -, hplace⟩ := h.signed
  obtain ⟨hlt, -⟩ := List.getElem?_eq_some_iff.mp (getElem?_of_participantIndex? hplace)
  rw [← h.fixed_eq]
  exact hlt

theorem signedTurn?_record {channel : Channel} {state : State} {index : Nat} {sig : Signature}
    {turn : UInt64} :
    (channel.record state index sig).signedTurn? turn
      = if state.turn = turn then some ((channel.entryFor state).addSignature index sig)
        else channel.signedTurn? turn :=
  SignedTurns.get?_put _ _ _ _

/-- What is on record for a turn after a signature was added: the entry that was signed, or what
was there before. -/
theorem signedTurn?_record_cases {channel : Channel} {state : State} {index : Nat}
    {sig : Signature} {turn : UInt64} {entry : SignedTurn}
    (hentry : (channel.record state index sig).signedTurn? turn = some entry) :
    (turn = state.turn ∧ entry = (channel.entryFor state).addSignature index sig) ∨
      channel.signedTurn? turn = some entry := by
  rw [signedTurn?_record] at hentry
  split at hentry
  · next hturn => exact .inl ⟨hturn.symm, (Option.some.inj hentry).symm⟩
  · exact .inr hentry

theorem isSupported_eq_any {channel : Channel} {turn : UInt64} :
    channel.isSupported turn = (channel.signedTurn? turn).any SignedTurn.isComplete := rfl

theorem isSupported_record {channel : Channel} {state : State} {index : Nat} {sig : Signature}
    {turn : UInt64} :
    (channel.record state index sig).isSupported turn
      = if state.turn = turn then ((channel.entryFor state).addSignature index sig).isComplete
        else channel.isSupported turn := by
  rw [isSupported_eq_any, signedTurn?_record]
  split <;> rfl

/-- The highest turn that everyone signed is the old one or the turn just signed, whichever is
higher, and the latter only when its entry is complete. -/
theorem latestSupported_record {channel : Channel} {state : State} {index : Nat}
    {sig : Signature} :
    (channel.record state index sig).latestSupported
      = if ((channel.entryFor state).addSignature index sig).isComplete
            && channel.latestSupported.all (· < state.turn)
        then some state.turn else channel.latestSupported := rfl

/-! ## The last state after a signature -/

section Advance

variable (channel : Channel) (state : State)

theorem turns_advance : (channel.advance state).turns = channel.turns := by
  unfold advance
  split <;> rfl

theorem fixed_advance : (channel.advance state).fixed = channel.fixed := by
  unfold advance
  split <;> rfl

theorem participants_advance : (channel.advance state).participants = channel.participants := by
  unfold advance
  split <;> rfl

theorem latestSupported_advance :
    (channel.advance state).latestSupported = channel.latestSupported := by
  unfold advance
  split <;> rfl

theorem concluded_advance : (channel.advance state).concluded = channel.concluded := by
  unfold advance
  split <;> rfl

theorem lastState_advance : (channel.advance state).lastState = state := by
  unfold advance
  split
  · next heq => exact heq.symm
  · rfl

theorem signedTurn?_advance (turn : UInt64) :
    (channel.advance state).signedTurn? turn = channel.signedTurn? turn := by
  rw [signedTurn?, turns_advance, signedTurn?]

theorem isSupported_advance (turn : UInt64) :
    (channel.advance state).isSupported turn = channel.isSupported turn := by
  rw [isSupported, turns_advance, isSupported]

theorem signedTurn?_record_advance (index : Nat) (sig : Signature) :
    ((channel.record state index sig).advance state).signedTurn? state.turn
      = some ((channel.entryFor state).addSignature index sig) := by
  rw [signedTurn?_advance, signedTurn?_record, if_pos rfl]

end Advance

theorem toNat_max (a b : UInt64) : (max a b).toNat = max a.toNat b.toNat := by
  show (if a ≤ b then b else a).toNat = max a.toNat b.toNat
  split
  · next hle => exact (Nat.max_eq_right (UInt64.le_iff_toNat_le.mp hle)).symm
  · next hnle =>
      have hlt : b < a := UInt64.not_le.mp hnle
      exact (Nat.max_eq_left (Nat.le_of_lt (UInt64.lt_iff_toNat_lt.mp hlt))).symm

/-- The last turn never falls, and it reaches the signed turn unless the state was the last one
already. -/
theorem lastTurn_advance (channel : Channel) (state : State) :
    (channel.advance state).lastTurn = if state = channel.lastState then channel.lastTurn
      else max channel.lastTurn state.turn := by
  unfold advance
  split <;> rfl

theorem lastTurn_record_advance_le {channel : Channel} {state : State} {index : Nat}
    {sig : Signature} {bound : UInt64} (hlast : channel.lastTurn ≤ bound)
    (hturn : state.turn ≤ bound) :
    ((channel.record state index sig).advance state).lastTurn ≤ bound := by
  rw [lastTurn_advance]
  split
  · exact hlast
  · rw [UInt64.le_iff_toNat_le, toNat_max]
    exact Nat.max_le.mpr ⟨UInt64.le_iff_toNat_le.mp hlast, UInt64.le_iff_toNat_le.mp hturn⟩

/-! ## Taking the operations apart -/

/-- What has been looked at before a turn is handed out with a draft of it. -/
structure Proposes (channel : Channel) (draft : Draft) : Prop where
  notConcluded : channel.concluded = false
  notFinal : channel.lastState.isFinal = false
  supported : channel.policy = .requireSupported → channel.isSupported channel.lastTurn = true
  room : channel.lastTurn.toNat + 1 < UInt64.size
  draft_eq : Draft.ofState { channel.lastState with turn := channel.lastTurn + 1 } = .ok draft

theorem Proposes.state_eq {channel : Channel} {draft : Draft} (h : channel.Proposes draft) :
    draft.state = { channel.lastState with turn := channel.lastTurn + 1 } := by
  have hdraft := h.draft_eq
  unfold Draft.ofState at hdraft
  cases hledger : Ledger.decode channel.lastState.appData with
  | error cause => rw [hledger] at hdraft; cases hdraft
  | ok ledger =>
      rw [hledger] at hdraft
      obtain rfl := Except.ok.inj hdraft
      rfl

theorem Proposes.toNat_next {channel : Channel} {draft : Draft} (h : channel.Proposes draft) :
    (channel.lastTurn + 1).toNat = channel.lastTurn.toNat + 1 := by
  rw [UInt64.toNat_add, UInt64.toNat_one]
  exact Nat.mod_eq_of_lt h.room

/-- What an operation came to and what it made of the channel. -/
inductive Effect (channel : Channel) : Answer ρ ε → Channel → Prop where
  | failed (cause : Failure ε) : Effect channel (.failed cause) channel
  | approved (index : Nat) (sig : Signature)
      (admits : channel.Admits channel.turns.preFund.state index sig) :
      Effect channel (.signed channel.turns.preFund.state sig)
        (channel.record channel.turns.preFund.state index sig)
  | signed (state : State) (index : Nat) (sig : Signature)
      (admits : channel.Admits state index sig) :
      Effect channel (.signed state sig) ((channel.record state index sig).advance state)
  | proposed (draft : Draft) (proposes : channel.Proposes draft) :
      Effect channel (.proposed draft)
        { channel with lastState := draft.state, lastTurn := channel.lastTurn + 1 }
  | deposited (receipt : ρ) (complete : channel.preFundComplete = true) :
      Effect channel (.deposited receipt) { channel with depositSubmitted := true }
  | settled (receipt : ρ) (notConcluded : channel.concluded = false)
      (isFinal : channel.lastState.isFinal = true) :
      Effect channel (.settled receipt) { channel with concluded := true }

theorem proposalRefusal?_eq_none {channel : Channel} (h : channel.proposalRefusal? = none) :
    channel.concluded = false ∧ channel.lastState.isFinal = false ∧
      (channel.policy = .requireSupported → channel.isSupported channel.lastTurn = true) ∧
      channel.lastTurn.toNat + 1 < UInt64.size := by
  unfold proposalRefusal? at h
  split at h
  · cases h
  · next hopen =>
      split at h
      · cases h
      · next hpolicy =>
          split at h
          · cases h
          · next hroom =>
              rw [Bool.not_eq_true, Bool.or_eq_false_iff] at hopen
              have hlt : channel.lastTurn.toNat < UInt64.size := channel.lastTurn.toNat_lt_size
              refine ⟨hopen.1, hopen.2, fun hrequire => ?_, by omega⟩
              rw [not_and, Bool.not_eq_false] at hpolicy
              exact hpolicy hrequire

theorem proposeState_ok {channel after : Channel} {draft : Draft}
    (h : proposeState.outcome channel = .ok (draft, after)) :
    channel.Proposes draft ∧
      after = { channel with lastState := draft.state, lastTurn := channel.lastTurn + 1 } := by
  rw [outcome_proposeState] at h
  obtain ⟨_, hnone, h⟩ := exists_ok_of_bind_eq_ok h
  obtain ⟨made, hmade, h⟩ := exists_ok_of_bind_eq_ok h
  obtain ⟨rfl, rfl⟩ := Prod.mk.inj (Except.ok.inj h)
  obtain ⟨hconcluded, hfinal, hpolicy, hroom⟩ :=
    proposalRefusal?_eq_none (eq_none_of_elim_eq_ok hnone)
  exact ⟨⟨hconcluded, hfinal, hpolicy, hroom, eq_ok_of_mapError_eq_ok hmade⟩, rfl⟩

theorem sender_ok {channel : Channel} {chainId : Uint256} {index : UInt64} {key : Bytes}
    {participant : Participant} {transactor : Transactor}
    (h : channel.sender chainId index key = .ok (participant, transactor)) :
    channel.participants[index.toNat]? = some participant ∧
      PrivateKey.ofBytes key = .ok transactor.key ∧
      transactor.address = participant.address := by
  unfold sender at h
  split at h
  · cases h
  · next found hfound =>
      split at h
      · cases h
      · next made hmade =>
          split at h
          · next haddress =>
              obtain ⟨rfl, rfl⟩ := Prod.mk.inj (Except.ok.inj h)
              refine ⟨hfound, ?_, haddress⟩
              unfold Transactor.ofBytes at hmade
              cases hkey : PrivateKey.ofBytes key with
              | error cause => rw [hkey] at hmade; cases hmade
              | ok secret =>
                  rw [hkey] at hmade
                  obtain rfl := Except.ok.inj hmade
                  rfl
          · cases h

/-- A deposit is made for a participant by its own key, and only when everyone signed the state
before funding. It is the locked amount of that participant, and what is expected to be held is what
the adjudicator has just said. -/
theorem depositCall_ok {channel : Channel} {adjudicator : Adjudicator ρ ε} {index : UInt64}
    {key : Bytes} {gas : Option Gas} {call : Call}
    (h : channel.depositCall adjudicator index key gas = .ok call) :
    channel.preFundComplete = true ∧
      ∃ participant transactor held,
        channel.participants[index.toNat]? = some participant ∧
        PrivateKey.ofBytes key = .ok transactor.key ∧
        transactor.address = participant.address ∧
        adjudicator.holdings channel.contract.asset channel.id = .ok held ∧
        call = .deposit ⟨participant.address, transactor,
            if channel.contract.asset = Address.zero then participant.lockedAmount else 0, gas⟩
          channel.contract.asset channel.id held participant.lockedAmount := by
  simp only [depositCall] at h
  split at h
  · cases h
  · next hcomplete =>
      split at h
      · cases h
      · next participant transactor hsender =>
          split at h
          · cases h
          · next held hheld =>
              obtain ⟨hplace, hkey, haddress⟩ := sender_ok hsender
              obtain rfl := Except.ok.inj h
              exact ⟨by simpa using hcomplete, participant, transactor, held, hplace, hkey,
                haddress, hheld, rfl⟩

theorem exists_sender_of_depositCall {channel : Channel} {adjudicator : Adjudicator ρ ε}
    {index : UInt64} {key : Bytes} {gas : Option Gas} {call : Call}
    (h : channel.depositCall adjudicator index key gas = .ok call) :
    ∃ found, channel.sender adjudicator.chainId index key = .ok found := by
  simp only [depositCall] at h
  split at h
  · cases h
  · split at h
    · cases h
    · next found hfound => exact ⟨_, hfound⟩

theorem exists_depositCall_eq_ok {channel : Channel} (adjudicator : Adjudicator ρ ε)
    {index : UInt64} {key : Bytes} {held : Uint256} {found : Participant × Transactor}
    (hcomplete : channel.preFundComplete = true)
    (hsender : channel.sender adjudicator.chainId index key = .ok found)
    (hheld : adjudicator.holdings channel.contract.asset channel.id = .ok held)
    (gas : Option Gas) : ∃ call, channel.depositCall adjudicator index key gas = .ok call := by
  rw [depositCall, hcomplete, Bool.not_true, if_neg Bool.false_ne_true, hsender]
  simp only [hheld]
  exact ⟨_, rfl⟩

theorem depositCall_ne_conclude {channel : Channel} {adjudicator : Adjudicator ρ ε} {index : UInt64}
    {key : Bytes} {gas : Option Gas} {terms : TransactionTerms} {settlement : Settlement} :
    channel.depositCall adjudicator index key gas ≠ .ok (.conclude terms settlement) := by
  intro h
  obtain ⟨-, participant, transactor, held, -, -, -, -, hcall⟩ := depositCall_ok h
  cases hcall

/-- A settling call is made for a participant by its own key, and only while the channel is open and
its last state final. -/
theorem concludeCall_ok {channel : Channel} {adjudicator : Adjudicator ρ ε} {index : UInt64}
    {key : Bytes} {signatures : Signatures} {gas : Option Gas} {call : Call}
    (h : channel.concludeCall adjudicator index key signatures gas = .ok call) :
    channel.concluded = false ∧ channel.lastState.isFinal = true ∧
      ∃ participant transactor settlement,
        channel.participants[index.toNat]? = some participant ∧
        PrivateKey.ofBytes key = .ok transactor.key ∧
        transactor.address = participant.address ∧
        Settlement.ofState channel.lastState signatures = .ok settlement ∧
        call = .conclude ⟨participant.address, transactor, 0, gas⟩ settlement := by
  unfold concludeCall at h
  split at h
  · cases h
  · next hconcluded =>
      split at h
      · cases h
      · next hfinal =>
          split at h
          · cases h
          · next participant transactor hsender =>
              split at h
              · cases h
              · next settlement hsettlement =>
                  obtain ⟨hplace, hkey, haddress⟩ := sender_ok hsender
                  obtain rfl := Except.ok.inj h
                  exact ⟨by simpa using hconcluded, by simpa using hfinal, participant, transactor,
                    settlement, hplace, hkey, haddress, hsettlement, rfl⟩

theorem exists_concludeCall_eq_ok {channel : Channel} (adjudicator : Adjudicator ρ ε)
    {index : UInt64} {key : Bytes} {found : Participant × Transactor}
    (hopen : channel.concluded = false) (hfinal : channel.lastState.isFinal = true)
    (hsender : channel.sender adjudicator.chainId index key = .ok found)
    (signatures : Signatures) (gas : Option Gas) :
    ∃ call, channel.concludeCall adjudicator index key signatures gas = .ok call := by
  rw [concludeCall, hopen, hfinal, Bool.not_true, if_neg Bool.false_ne_true,
    if_neg Bool.false_ne_true, hsender, Settlement.ofState, if_pos hfinal]
  exact ⟨_, rfl⟩

/-- What can come of a deposit. -/
theorem step_fund_cases (channel : Channel) (adjudicator : Adjudicator ρ ε) (index : UInt64)
    (key : Bytes) (gas : Option Gas) :
    (∃ cause, channel.depositCall adjudicator index key gas = .error cause ∧
      channel.step adjudicator (.fund index key gas)
        = ⟨channel, .fund index key gas, .failed (.fund cause), [], channel⟩) ∨
    (∃ call cause, channel.depositCall adjudicator index key gas = .ok call ∧
      adjudicator.submit call = .error cause ∧
      channel.step adjudicator (.fund index key gas)
        = ⟨channel, .fund index key gas, .failed (.fund (.contract cause)), [call], channel⟩) ∨
    (∃ call receipt, channel.depositCall adjudicator index key gas = .ok call ∧
      adjudicator.submit call = .ok receipt ∧
      channel.step adjudicator (.fund index key gas)
        = ⟨channel, .fund index key gas, .deposited receipt, [call],
            { channel with depositSubmitted := true }⟩) :=
  perform_send_cases adjudicator (·.depositCall adjudicator index key gas) .contract
    ({ · with depositSubmitted := true }) channel (.fund index key gas) .deposited .fund

/-- What can come of a settlement. -/
theorem step_conclude_cases (channel : Channel) (adjudicator : Adjudicator ρ ε) (index : UInt64)
    (key : Bytes) (signatures : Signatures) (gas : Option Gas) :
    (∃ cause, channel.concludeCall adjudicator index key signatures gas = .error cause ∧
      channel.step adjudicator (.conclude index key signatures gas)
        = ⟨channel, .conclude index key signatures gas, .failed (.conclude cause), [], channel⟩) ∨
    (∃ call cause, channel.concludeCall adjudicator index key signatures gas = .ok call ∧
      adjudicator.submit call = .error cause ∧
      channel.step adjudicator (.conclude index key signatures gas)
        = ⟨channel, .conclude index key signatures gas, .failed (.conclude (.contract cause)),
            [call], channel⟩) ∨
    (∃ call receipt, channel.concludeCall adjudicator index key signatures gas = .ok call ∧
      adjudicator.submit call = .ok receipt ∧
      channel.step adjudicator (.conclude index key signatures gas)
        = ⟨channel, .conclude index key signatures gas, .settled receipt, [call],
            { channel with concluded := true }⟩) :=
  perform_send_cases adjudicator (·.concludeCall adjudicator index key signatures gas) .contract
    ({ · with concluded := true }) channel (.conclude index key signatures gas) .settled .conclude

theorem step_fund_of_error {channel : Channel} {adjudicator : Adjudicator ρ ε} {index : UInt64}
    {key : Bytes} {gas : Option Gas} {cause : FundError ε}
    (hcall : channel.depositCall adjudicator index key gas = .error cause) :
    channel.step adjudicator (.fund index key gas)
      = ⟨channel, .fund index key gas, .failed (.fund cause), [], channel⟩ := by
  simp only [step, fund, perform_send, hcall]

theorem step_fund_of_ok {channel : Channel} {adjudicator : Adjudicator ρ ε} {index : UInt64}
    {key : Bytes} {gas : Option Gas} {call : Call} {receipt : ρ}
    (hcall : channel.depositCall adjudicator index key gas = .ok call)
    (hsubmit : adjudicator.submit call = .ok receipt) :
    channel.step adjudicator (.fund index key gas)
      = ⟨channel, .fund index key gas, .deposited receipt, [call],
          { channel with depositSubmitted := true }⟩ := by
  simp only [step, fund, perform_send, hcall, hsubmit]

theorem step_conclude_of_error {channel : Channel} {adjudicator : Adjudicator ρ ε} {index : UInt64}
    {key : Bytes} {signatures : Signatures} {gas : Option Gas} {cause : ConcludeError ε}
    (hcall : channel.concludeCall adjudicator index key signatures gas = .error cause) :
    channel.step adjudicator (.conclude index key signatures gas)
      = ⟨channel, .conclude index key signatures gas, .failed (.conclude cause), [], channel⟩ := by
  simp only [step, conclude, perform_send, hcall]

theorem step_conclude_of_ok {channel : Channel} {adjudicator : Adjudicator ρ ε} {index : UInt64}
    {key : Bytes} {signatures : Signatures} {gas : Option Gas} {call : Call} {receipt : ρ}
    (hcall : channel.concludeCall adjudicator index key signatures gas = .ok call)
    (hsubmit : adjudicator.submit call = .ok receipt) :
    channel.step adjudicator (.conclude index key signatures gas)
      = ⟨channel, .conclude index key signatures gas, .settled receipt, [call],
          { channel with concluded := true }⟩ := by
  simp only [step, conclude, perform_send, hcall, hsubmit]

theorem step_signState_of_error {channel : Channel} {draft : Draft} {key : Bytes}
    {cause : SignError} (adjudicator : Adjudicator ρ ε)
    (h : (sign draft.state key).outcome channel = .error cause) :
    channel.step adjudicator (.signState draft key)
      = ⟨channel, .signState draft key, .failed (.sign cause), [], channel⟩ := by
  rw [step_signState, outcome_signAsLast, h]
  rfl

theorem step_signState_of_ok {channel signed : Channel} {draft : Draft} {key : Bytes}
    {sig : Signature} (adjudicator : Adjudicator ρ ε)
    (h : (sign draft.state key).outcome channel = .ok (sig, signed)) :
    channel.step adjudicator (.signState draft key)
      = ⟨channel, .signState draft key, .signed draft.state sig, [],
          signed.advance draft.state⟩ := by
  rw [step_signState, outcome_signAsLast, h]
  rfl

theorem stepOf_effect {E α : Type} {channel : Channel} {operation : Operation}
    {done : α → Answer ρ ε} {failed : E → Failure ε} {result : Except E (α × Channel)}
    (hok : ∀ value after, result = .ok (value, after) → Effect channel (done value) after) :
    Effect channel (channel.stepOf operation done failed result).answer
      (channel.stepOf operation done failed result).after := by
  cases result with
  | error cause => exact .failed _
  | ok made => exact hok made.1 made.2 rfl

theorem approveInit_effect {channel after : Channel} {key : Bytes} {sig : Signature}
    (h : (approveInit key).outcome channel = .ok (sig, after)) :
    Effect (ρ := ρ) (ε := ε) channel (.signed channel.turns.preFund.state sig) after := by
  rw [outcome_approveInit] at h
  split at h
  · cases h
  · obtain ⟨index, hadmits, rfl⟩ := sign_ok h
    exact .approved index sig hadmits

theorem signAsLast_effect {channel after : Channel} {state : State} {key : Bytes} {sig : Signature}
    (h : (signAsLast state key).outcome channel = .ok (sig, after)) :
    Effect (ρ := ρ) (ε := ε) channel (.signed state sig) after := by
  rw [outcome_signAsLast] at h
  obtain ⟨⟨made, signed⟩, hsign, hmade⟩ := exists_ok_of_map_eq_ok h
  obtain ⟨rfl, rfl⟩ := Prod.mk.inj hmade
  obtain ⟨index, hadmits, rfl⟩ := sign_ok hsign
  exact .signed state index made hadmits

theorem approveFunding_effect {channel after : Channel} {key : Bytes} {sig : Signature}
    (h : (approveFunding key).outcome channel = .ok (sig, after)) :
    Effect (ρ := ρ) (ε := ε) channel (.signed channel.turns.postFund.state sig) after := by
  rw [outcome_approveFunding] at h
  split at h
  · cases h
  · exact signAsLast_effect h

theorem proposeState_effect {channel after : Channel} {draft : Draft}
    (h : proposeState.outcome channel = .ok (draft, after)) :
    Effect (ρ := ρ) (ε := ε) channel (.proposed draft) after := by
  obtain ⟨hproposes, rfl⟩ := proposeState_ok h
  exact .proposed draft hproposes

theorem step_effect (channel : Channel) (adjudicator : Adjudicator ρ ε) (operation : Operation) :
    Effect channel (channel.step adjudicator operation).answer
      (channel.step adjudicator operation).after := by
  cases operation with
  | approveInit key =>
      rw [step_approveInit]
      exact stepOf_effect fun _ _ h => approveInit_effect h
  | approveFunding key =>
      rw [step_approveFunding]
      exact stepOf_effect fun _ _ h => approveFunding_effect h
  | signState draft key =>
      rw [step_signState]
      exact stepOf_effect fun _ _ h => signAsLast_effect h
  | proposeState =>
      rw [step_proposeState]
      exact stepOf_effect fun _ _ h => proposeState_effect h
  | fund index key gas =>
      rcases channel.step_fund_cases adjudicator index key gas with
        ⟨cause, -, heq⟩ | ⟨call, cause, -, -, heq⟩ | ⟨call, receipt, hcall, -, heq⟩
      · rw [heq]
        exact .failed _
      · rw [heq]
        exact .failed _
      · rw [heq]
        exact .deposited receipt (depositCall_ok hcall).1
  | conclude index key signatures gas =>
      rcases channel.step_conclude_cases adjudicator index key signatures gas with
        ⟨cause, -, heq⟩ | ⟨call, cause, -, -, heq⟩ | ⟨call, receipt, hcall, -, heq⟩
      · rw [heq]
        exact .failed _
      · rw [heq]
        exact .failed _
      · obtain ⟨hconcluded, hfinal, -⟩ := concludeCall_ok hcall
        rw [heq]
        exact .settled receipt hconcluded hfinal

theorem Effect.eq_of_failed {channel after : Channel} {cause : Failure ε}
    (h : Effect (ρ := ρ) channel (.failed cause) after) : after = channel := by
  cases h
  rfl

theorem Effect.proposes {channel after : Channel} {draft : Draft}
    (h : Effect (ρ := ρ) (ε := ε) channel (.proposed draft) after) : channel.Proposes draft := by
  cases h with
  | proposed draft hproposes => exact hproposes

/-- What two channels have in common that began with one proposal and one set of settings. -/
structure SameTerms (channel other : Channel) : Prop where
  partIndex_eq : channel.partIndex = other.partIndex
  participants_eq : channel.participants = other.participants
  contract_eq : channel.contract = other.contract
  fixed_eq : channel.fixed = other.fixed
  policy_eq : channel.policy = other.policy

theorem SameTerms.refl (channel : Channel) : SameTerms channel channel := ⟨rfl, rfl, rfl, rfl, rfl⟩

theorem SameTerms.trans {a b c : Channel} (hab : SameTerms a b) (hbc : SameTerms b c) :
    SameTerms a c :=
  ⟨hab.partIndex_eq.trans hbc.partIndex_eq, hab.participants_eq.trans hbc.participants_eq,
    hab.contract_eq.trans hbc.contract_eq, hab.fixed_eq.trans hbc.fixed_eq,
    hab.policy_eq.trans hbc.policy_eq⟩

theorem SameTerms.sender_eq {channel other : Channel} (h : SameTerms other channel)
    (chainId : Uint256) (index : UInt64) (key : Bytes) :
    other.sender chainId index key = channel.sender chainId index key := by
  rw [sender, sender, h.participants_eq]

theorem Effect.sameTerms {channel after : Channel} {answer : Answer ρ ε}
    (h : Effect channel answer after) : SameTerms after channel := by
  cases h with
  | failed cause => exact SameTerms.refl channel
  | approved index sig hadmits => exact ⟨rfl, rfl, rfl, rfl, rfl⟩
  | signed state index sig hadmits =>
      unfold advance
      split <;> exact ⟨rfl, rfl, rfl, rfl, rfl⟩
  | proposed draft hproposes => exact ⟨rfl, rfl, rfl, rfl, rfl⟩
  | deposited receipt hcomplete => exact ⟨rfl, rfl, rfl, rfl, rfl⟩
  | settled receipt hconcluded hfinal => exact ⟨rfl, rfl, rfl, rfl, rfl⟩

/-- Whatever the operation, the turns on record change by one signature or not at all. -/
theorem Effect.turns_cases {channel after : Channel} {answer : Answer ρ ε}
    (h : Effect channel answer after) :
    (after.turns = channel.turns ∧ after.latestSupported = channel.latestSupported ∧
      ∀ state sig, answer ≠ .signed state sig) ∨
    (∃ state index sig, answer = .signed state sig ∧ channel.Admits state index sig ∧
      after.turns = (channel.record state index sig).turns ∧
      after.latestSupported = (channel.record state index sig).latestSupported) := by
  cases h with
  | failed cause => exact .inl ⟨rfl, rfl, fun _ _ h => by cases h⟩
  | approved index sig hadmits => exact .inr ⟨_, index, sig, rfl, hadmits, rfl, rfl⟩
  | signed state index sig hadmits =>
      exact .inr ⟨state, index, sig, rfl, hadmits, turns_advance _ state,
        latestSupported_advance _ state⟩
  | proposed draft hproposes => exact .inl ⟨rfl, rfl, fun _ _ h => by cases h⟩
  | deposited receipt hcomplete => exact .inl ⟨rfl, rfl, fun _ _ h => by cases h⟩
  | settled receipt hconcluded hfinal => exact .inl ⟨rfl, rfl, fun _ _ h => by cases h⟩

theorem exists_admits_of_signed {channel : Channel} {adjudicator : Adjudicator ρ ε}
    {operation : Operation} {state : State} {sig : Signature}
    (hsigned : (channel.step adjudicator operation).answer = .signed state sig) :
    ∃ index, channel.Admits state index sig ∧
      (channel.step adjudicator operation).after.turns
        = (channel.record state index sig).turns := by
  rcases (channel.step_effect adjudicator operation).turns_cases with
    ⟨-, -, hnot⟩ | ⟨signed, index, made, hanswer, hadmits, hturns, -⟩
  · exact absurd hsigned (hnot state sig)
  · obtain ⟨rfl, rfl⟩ := Answer.signed.inj (hsigned.symm.trans hanswer)
    exact ⟨index, hadmits, hturns⟩

/-! ## Where answers come from -/

/-- Which answers an operation may get. -/
inductive Yields (channel : Channel) : Operation → Answer ρ ε → Prop where
  | approvedInit (key : Bytes) (sig : Signature) :
      Yields channel (.approveInit key) (.signed channel.turns.preFund.state sig)
  | approvedFunding (key : Bytes) (sig : Signature) :
      Yields channel (.approveFunding key) (.signed channel.turns.postFund.state sig)
  | signed (draft : Draft) (key : Bytes) (sig : Signature) :
      Yields channel (.signState draft key) (.signed draft.state sig)
  | proposed (draft : Draft) : Yields channel .proposeState (.proposed draft)
  | deposited (index : UInt64) (key : Bytes) (gas : Option Gas) (receipt : ρ) :
      Yields channel (.fund index key gas) (.deposited receipt)
  | settled (index : UInt64) (key : Bytes) (signatures : Signatures) (gas : Option Gas)
      (receipt : ρ) : Yields channel (.conclude index key signatures gas) (.settled receipt)
  | notSigned (operation : Operation) (cause : SignError) :
      Yields channel operation (.failed (.sign cause))
  | notProposed (cause : ProposeError) : Yields channel .proposeState (.failed (.propose cause))
  | notDeposited (operation : Operation) (cause : FundError ε) :
      Yields channel operation (.failed (.fund cause))
  | notSettled (operation : Operation) (cause : ConcludeError ε) :
      Yields channel operation (.failed (.conclude cause))

theorem stepOf_yields {E α : Type} {channel : Channel} {operation : Operation}
    {done : α → Answer ρ ε} {failed : E → Failure ε}
    (hdone : ∀ value, Yields channel operation (done value))
    (hfailed : ∀ cause, Yields (ρ := ρ) channel operation (.failed (failed cause)))
    (result : Except E (α × Channel)) :
    Yields channel operation (channel.stepOf operation done failed result).answer := by
  cases result with
  | error cause => exact hfailed cause
  | ok made => exact hdone made.1

theorem step_yields (channel : Channel) (adjudicator : Adjudicator ρ ε) (operation : Operation) :
    Yields channel operation (channel.step adjudicator operation).answer := by
  cases operation with
  | approveInit key =>
      rw [step_approveInit]
      exact stepOf_yields (.approvedInit key) (.notSigned _) _
  | approveFunding key =>
      rw [step_approveFunding]
      exact stepOf_yields (.approvedFunding key) (.notSigned _) _
  | signState draft key =>
      rw [step_signState]
      exact stepOf_yields (.signed draft key) (.notSigned _) _
  | proposeState =>
      rw [step_proposeState]
      exact stepOf_yields .proposed .notProposed _
  | fund index key gas =>
      rcases channel.step_fund_cases adjudicator index key gas with
        ⟨cause, -, heq⟩ | ⟨call, cause, -, -, heq⟩ | ⟨call, receipt, -, -, heq⟩ <;>
        rw [heq] <;> constructor
  | conclude index key signatures gas =>
      rcases channel.step_conclude_cases adjudicator index key signatures gas with
        ⟨cause, -, heq⟩ | ⟨call, cause, -, -, heq⟩ | ⟨call, receipt, -, -, heq⟩ <;>
        rw [heq] <;> constructor

theorem yields_of_answer {channel : Channel} {adjudicator : Adjudicator ρ ε}
    {operation : Operation} {answer : Answer ρ ε}
    (h : (channel.step adjudicator operation).answer = answer) :
    Yields channel operation answer := by
  rw [← h]
  exact channel.step_yields adjudicator operation

/-- A signed state is one of the two of the funding, or it was handed in. -/
theorem source_of_signed {channel : Channel} {adjudicator : Adjudicator ρ ε}
    {operation : Operation} {state : State} {sig : Signature}
    (h : (channel.step adjudicator operation).answer = .signed state sig) :
    (∃ key, operation = .approveInit key ∧ state = channel.turns.preFund.state) ∨
      (∃ key, operation = .approveFunding key ∧ state = channel.turns.postFund.state) ∨
      ∃ draft key, operation = .signState draft key ∧ state = draft.state := by
  cases yields_of_answer h with
  | approvedInit key sig => exact .inl ⟨key, rfl, rfl⟩
  | approvedFunding key sig => exact .inr (.inl ⟨key, rfl, rfl⟩)
  | signed draft key sig => exact .inr (.inr ⟨draft, key, rfl, rfl⟩)

theorem lastState_of_signAsLast {channel after : Channel} {state : State} {key : Bytes}
    {sig : Signature} (h : (signAsLast state key).outcome channel = .ok (sig, after)) :
    after.lastState = state := by
  rw [outcome_signAsLast] at h
  obtain ⟨⟨made, signed⟩, -, hmade⟩ := exists_ok_of_map_eq_ok h
  obtain ⟨-, rfl⟩ := Prod.mk.inj hmade
  exact lastState_advance signed state

theorem lastState_of_signState {channel : Channel} {adjudicator : Adjudicator ρ ε} {draft : Draft}
    {key : Bytes} {sig : Signature}
    (hsigned : (channel.step adjudicator (.signState draft key)).answer = .signed draft.state sig) :
    (channel.step adjudicator (.signState draft key)).after.lastState = draft.state := by
  rw [step_signState] at hsigned ⊢
  cases hmade : (signAsLast draft.state key).outcome channel with
  | error cause => rw [hmade] at hsigned; cases hsigned
  | ok made => exact lastState_of_signAsLast hmade

theorem after_approveInit (channel : Channel) (adjudicator : Adjudicator ρ ε) (key : Bytes) :
    (channel.step adjudicator (.approveInit key)).after = channel ∨
    ∃ index sig, (channel.step adjudicator (.approveInit key)).after
      = channel.record channel.turns.preFund.state index sig := by
  rw [step_approveInit, outcome_approveInit]
  split
  · exact .inl rfl
  · cases hsign : (sign channel.turns.preFund.state key).outcome channel with
    | error cause => exact .inl rfl
    | ok made =>
        obtain ⟨index, -, heq⟩ := sign_ok hsign
        exact .inr ⟨index, made.1, heq⟩

theorem lastState_of_approveInit (channel : Channel) (adjudicator : Adjudicator ρ ε) (key : Bytes) :
    (channel.step adjudicator (.approveInit key)).after.lastState = channel.lastState := by
  rcases after_approveInit channel adjudicator key with h | ⟨index, sig, h⟩ <;> rw [h]
  rfl

theorem lastState_of_approveFunding {channel : Channel} {adjudicator : Adjudicator ρ ε}
    {key : Bytes} {state : State} {sig : Signature}
    (hsigned : (channel.step adjudicator (.approveFunding key)).answer = .signed state sig) :
    (channel.step adjudicator (.approveFunding key)).after.lastState = state := by
  rw [step_approveFunding, outcome_approveFunding] at hsigned ⊢
  split at hsigned
  · cases hsigned
  · next hopen =>
      rw [if_neg hopen]
      cases hmade : (signAsLast channel.turns.postFund.state key).outcome channel with
      | error cause => rw [hmade] at hsigned; cases hsigned
      | ok made =>
          rw [hmade] at hsigned
          obtain ⟨rfl, -⟩ := Answer.signed.inj hsigned
          exact lastState_of_signAsLast hmade

/-- A signed state is the last one, unless it is signed as the state before funding. -/
theorem lastState_of_signed {channel : Channel} {adjudicator : Adjudicator ρ ε}
    {operation : Operation} {state : State} {sig : Signature}
    (hsigned : (channel.step adjudicator operation).answer = .signed state sig)
    (hnot : ∀ key, operation ≠ .approveInit key) :
    (channel.step adjudicator operation).after.lastState = state := by
  rcases source_of_signed hsigned with ⟨key, hinit, -⟩ | ⟨key, rfl, -⟩ | ⟨draft, key, rfl, rfl⟩
  · exact absurd hinit (hnot key)
  · exact lastState_of_approveFunding hsigned
  · exact lastState_of_signState hsigned

/-! ## The calls of a step -/

theorem calls_stepOf {E α : Type} {channel : Channel} {operation : Operation}
    {done : α → Answer ρ ε} {failed : E → Failure ε} (result : Except E (α × Channel)) :
    (channel.stepOf operation done failed result).calls = [] := by
  cases result <;> rfl

/-- Only the two operations on the adjudicator make calls, each the one call it has worked out. -/
theorem mem_calls_step {channel : Channel} {adjudicator : Adjudicator ρ ε} {operation : Operation}
    {call : Call} (h : call ∈ (channel.step adjudicator operation).calls) :
    (∃ index key gas, operation = .fund index key gas ∧
      channel.depositCall adjudicator index key gas = .ok call) ∨
    (∃ index key signatures gas, operation = .conclude index key signatures gas ∧
      channel.concludeCall adjudicator index key signatures gas = .ok call) := by
  cases operation with
  | approveInit key =>
      rw [step_approveInit, calls_stepOf] at h
      exact absurd h List.not_mem_nil
  | approveFunding key =>
      rw [step_approveFunding, calls_stepOf] at h
      exact absurd h List.not_mem_nil
  | signState draft key =>
      rw [step_signState, calls_stepOf] at h
      exact absurd h List.not_mem_nil
  | proposeState =>
      rw [step_proposeState, calls_stepOf] at h
      exact absurd h List.not_mem_nil
  | fund index key gas =>
      rw [step, fund] at h
      exact .inl ⟨index, key, gas, rfl, mem_calls_send h⟩
  | conclude index key signatures gas =>
      rw [step, conclude] at h
      exact .inr ⟨index, key, signatures, gas, rfl, mem_calls_send h⟩

/-! ## From one step to a run -/

theorem perform_fields {E α : Type} (channel : Channel) (operation : Operation)
    (action : Action E α) (done : α → Answer ρ ε) (failed : E → Failure ε) :
    (channel.perform operation action done failed).before = channel ∧
      (channel.perform operation action done failed).operation = operation := by
  unfold perform
  split <;> exact ⟨rfl, rfl⟩

theorem step_fields (channel : Channel) (adjudicator : Adjudicator ρ ε) (operation : Operation) :
    (channel.step adjudicator operation).before = channel ∧
      (channel.step adjudicator operation).operation = operation := by
  cases operation <;> exact perform_fields channel ..

theorem run_cons (channel : Channel) (adjudicator : Adjudicator ρ ε) (operation : Operation)
    (operations : List (Adjudicator ρ ε × Operation)) :
    channel.run ((adjudicator, operation) :: operations)
      = channel.step adjudicator operation
        :: (channel.step adjudicator operation).after.run operations := rfl

theorem afterAll_cons (channel : Channel) (step : Step ρ ε) (steps : List (Step ρ ε)) :
    channel.afterAll (step :: steps) = step.after.afterAll steps := by
  cases steps with
  | nil => rfl
  | cons next steps => rw [afterAll, afterAll, List.getLast?_cons_cons, List.getLast?_cons]; rfl

theorem exists_mem_afterAll_eq (channel : Channel) {steps : List (Step ρ ε)} (h : steps ≠ []) :
    ∃ last ∈ steps, channel.afterAll steps = last.after := by
  refine ⟨steps.getLast h, List.getLast_mem h, ?_⟩
  rw [afterAll, List.getLast?_eq_some_getLast h]
  rfl

/-- What holds at the beginning and after every step holds at the end. -/
theorem afterAll_of_forall {P : Channel → Prop} {channel : Channel} {steps : List (Step ρ ε)}
    (hchannel : P channel) (h : ∀ step ∈ steps, P step.after) : P (channel.afterAll steps) := by
  by_cases hnone : steps = []
  · rw [hnone]
    exact hchannel
  · obtain ⟨last, hlast, heq⟩ := exists_mem_afterAll_eq channel hnone
    rw [heq]
    exact h last hlast

theorem map_operation_run :
    ∀ (operations : List (Adjudicator ρ ε × Operation)) (channel : Channel),
      (channel.run operations).map Step.operation = operations.map Prod.snd := by
  intro operations
  induction operations with
  | nil => intro channel; rfl
  | cons first operations ih =>
      obtain ⟨adjudicator, operation⟩ := first
      intro channel
      rw [run_cons, List.map_cons, List.map_cons, ih, (step_fields _ _ _).2]

theorem exists_mem_of_mem_run {operations : List (Adjudicator ρ ε × Operation)} {channel : Channel}
    {step : Step ρ ε} (hmem : step ∈ channel.run operations) :
    ∃ adjudicator, (adjudicator, step.operation) ∈ operations := by
  have hoperation : step.operation ∈ operations.map Prod.snd := by
    rw [← map_operation_run operations channel]
    exact List.mem_map_of_mem hmem
  obtain ⟨⟨adjudicator, operation⟩, hpair, rfl⟩ := List.mem_map.mp hoperation
  exact ⟨adjudicator, hpair⟩

/-- What the steps of a run keep holds before and after each of them. -/
theorem forall_mem_run_of_kept {P : Channel → Prop} :
    ∀ {operations : List (Adjudicator ρ ε × Operation)} {channel : Channel}, P channel →
      (∀ step ∈ channel.run operations, P step.before → P step.after) →
      ∀ step ∈ channel.run operations, P step.before ∧ P step.after := by
  intro operations
  induction operations with
  | nil => intro channel _ _ step hmem; exact absurd hmem List.not_mem_nil
  | cons first operations ih =>
      obtain ⟨adjudicator, operation⟩ := first
      intro channel hchannel hkept
      rw [run_cons, List.forall_mem_cons, (step_fields channel adjudicator operation).1] at hkept
      have hafter := hkept.1 hchannel
      rw [run_cons, List.forall_mem_cons, (step_fields channel adjudicator operation).1]
      exact ⟨⟨hchannel, hafter⟩, ih hafter hkept.2⟩

/-- Any two steps of a run are related if a step is related to whatever may be run after it. -/
theorem pairwise_run {R : Step ρ ε → Step ρ ε → Prop} :
    ∀ {operations : List (Adjudicator ρ ε × Operation)} {channel : Channel},
      (∀ earlier ∈ channel.run operations, ∀ rest, ∀ later ∈ earlier.after.run rest,
        R earlier later) →
      (channel.run operations).Pairwise R := by
  intro operations
  induction operations with
  | nil => intro channel _; exact List.Pairwise.nil
  | cons first operations ih =>
      obtain ⟨adjudicator, operation⟩ := first
      intro channel hrelated
      rw [run_cons] at hrelated ⊢
      exact List.pairwise_cons.mpr ⟨hrelated _ List.mem_cons_self operations,
        ih fun earlier hearlier => hrelated earlier (List.mem_cons_of_mem _ hearlier)⟩

theorem eq_step_of_mem_run :
    ∀ {operations : List (Adjudicator ρ ε × Operation)} {channel : Channel} {step : Step ρ ε},
      step ∈ channel.run operations →
      ∃ adjudicator operation, step = step.before.step adjudicator operation := by
  intro operations
  induction operations with
  | nil => intro channel step hmem; exact absurd hmem List.not_mem_nil
  | cons first operations ih =>
      obtain ⟨adjudicator, operation⟩ := first
      intro channel step hmem
      rw [run_cons] at hmem
      rcases List.mem_cons.mp hmem with rfl | hrest
      · rw [(step_fields channel adjudicator operation).1]
        exact ⟨adjudicator, operation, rfl⟩
      · exact ih hrest

theorem eq_step_operation_of_mem_run {operations : List (Adjudicator ρ ε × Operation)}
    {channel : Channel} {step : Step ρ ε} (hmem : step ∈ channel.run operations) :
    ∃ adjudicator, step = step.before.step adjudicator step.operation := by
  obtain ⟨adjudicator, operation, hstep⟩ := eq_step_of_mem_run hmem
  have hoperation : step.operation = operation := by rw [hstep, (step_fields _ _ _).2]
  rw [← hoperation] at hstep
  exact ⟨adjudicator, hstep⟩

/-- The operations of a run stand beside their steps, each with the answers it was given. -/
theorem eq_step_of_mem_zip :
    ∀ {operations : List (Adjudicator ρ ε × Operation)} {channel : Channel}
      {adjudicator : Adjudicator ρ ε} {operation : Operation} {step : Step ρ ε},
      ((adjudicator, operation), step) ∈ operations.zip (channel.run operations) →
      step ∈ channel.run operations ∧ step = step.before.step adjudicator operation := by
  intro operations
  induction operations with
  | nil => intro channel adjudicator operation step hmem; exact absurd hmem List.not_mem_nil
  | cons first operations ih =>
      intro channel adjudicator operation step hmem
      obtain ⟨pending, next⟩ := first
      rw [run_cons, List.zip_cons_cons] at hmem
      rw [run_cons]
      rcases List.mem_cons.mp hmem with heq | hrest
      · obtain ⟨hfirst, rfl⟩ := Prod.mk.inj heq
        obtain ⟨rfl, rfl⟩ := Prod.mk.inj hfirst
        rw [(step_fields channel adjudicator operation).1]
        exact ⟨List.mem_cons_self, rfl⟩
      · obtain ⟨hstep, heq⟩ := ih hrest
        exact ⟨List.mem_cons_of_mem _ hstep, heq⟩

theorem exists_mem_zip_of_mem_run {operations : List (Adjudicator ρ ε × Operation)}
    {channel : Channel} {step : Step ρ ε} (hmem : step ∈ channel.run operations) :
    ∃ adjudicator operation,
      ((adjudicator, operation), step) ∈ operations.zip (channel.run operations) := by
  have hlength := congrArg List.length (map_operation_run operations channel)
  rw [List.length_map, List.length_map] at hlength
  rw [← List.map_snd_zip (Nat.le_of_eq hlength), List.mem_map] at hmem
  obtain ⟨⟨⟨adjudicator, operation⟩, found⟩, hpair, rfl⟩ := hmem
  exact ⟨adjudicator, operation, hpair⟩

theorem effect_of_mem_run {operations : List (Adjudicator ρ ε × Operation)} {channel : Channel}
    {step : Step ρ ε} (hmem : step ∈ channel.run operations) :
    Effect step.before step.answer step.after := by
  obtain ⟨adjudicator, operation, hstep⟩ := eq_step_of_mem_run hmem
  have heffect := step.before.step_effect adjudicator operation
  rwa [← hstep] at heffect

theorem effect_of_answer {operations : List (Adjudicator ρ ε × Operation)} {channel : Channel}
    {step : Step ρ ε} (hmem : step ∈ channel.run operations) {answer : Answer ρ ε}
    (h : step.answer = answer) : Effect step.before answer step.after := by
  rw [← h]
  exact effect_of_mem_run hmem

theorem sameTerms_of_mem_run {operations : List (Adjudicator ρ ε × Operation)} {channel : Channel}
    {step : Step ρ ε} (hmem : step ∈ channel.run operations) :
    SameTerms step.before channel ∧ SameTerms step.after channel := by
  refine forall_mem_run_of_kept (P := (SameTerms · channel)) (SameTerms.refl channel)
    (fun step hmem hbefore => ?_) step hmem
  exact (effect_of_mem_run hmem).sameTerms.trans hbefore

theorem sameTerms_afterAll (channel : Channel) (operations : List (Adjudicator ρ ε × Operation)) :
    SameTerms (channel.afterAll (channel.run operations)) channel :=
  afterAll_of_forall (P := (SameTerms · channel)) (SameTerms.refl channel)
    fun _ hmem => (sameTerms_of_mem_run hmem).2

/-- What every step keeps holds before each step of a run. -/
theorem forall_mem_run {P : Channel → Prop}
    (hstep : ∀ channel (adjudicator : Adjudicator ρ ε) operation, P channel →
      P (channel.step adjudicator operation).after)
    {operations : List (Adjudicator ρ ε × Operation)} {channel : Channel} (hchannel : P channel)
    (step : Step ρ ε) (hmem : step ∈ channel.run operations) :
    P step.before ∧ ∃ adjudicator operation, step = step.before.step adjudicator operation := by
  have hkept : ∀ step ∈ channel.run operations, P step.before → P step.after := by
    intro step hmem hbefore
    obtain ⟨adjudicator, operation, heq⟩ := eq_step_of_mem_run hmem
    rw [heq]
    exact hstep step.before adjudicator operation hbefore
  exact ⟨(forall_mem_run_of_kept hchannel hkept step hmem).1, eq_step_of_mem_run hmem⟩

/-! ## What came before a step -/

/-- What holds at the beginning, of no steps, and is kept by every step in view of all that came
before it, holds before and after each step of a run. -/
theorem forall_history_of_kept :
    ∀ {operations : List (Adjudicator ρ ε × Operation)} {channel : Channel}
      {P : List (Step ρ ε) → Channel → Prop}, P [] channel →
      (∀ earlier step later, channel.run operations = earlier ++ step :: later →
        P earlier step.before → P (earlier ++ [step]) step.after) →
      ∀ earlier step later, channel.run operations = earlier ++ step :: later →
        P earlier step.before ∧ P (earlier ++ [step]) step.after := by
  intro operations
  induction operations with
  | nil =>
      intro channel P _ _ earlier step later hrun
      exact absurd hrun (List.append_ne_nil_of_right_ne_nil _ (List.cons_ne_nil _ _)).symm
  | cons first operations ih =>
      obtain ⟨adjudicator, operation⟩ := first
      intro channel P hchannel hkept earlier step later hrun
      rw [run_cons] at hkept hrun
      have hbefore : P [] (channel.step adjudicator operation).before := by
        rw [(step_fields channel adjudicator operation).1]
        exact hchannel
      have hafter := hkept [] _ _ rfl hbefore
      cases earlier with
      | nil =>
          obtain ⟨rfl, -⟩ := List.cons.inj hrun
          exact ⟨hbefore, hafter⟩
      | cons head earlier =>
          -- What is known of the rest of the run, with the first step put in front.
          obtain ⟨rfl, hrest⟩ := List.cons.inj hrun
          refine ih (P := fun steps => P (channel.step adjudicator operation :: steps)) hafter
            (fun earlier step later hrun => ?_) earlier step later hrest
          exact hkept (channel.step adjudicator operation :: earlier) step later
            (congrArg (List.cons _) hrun)

/-- A step begins where the steps before it have ended. -/
theorem before_eq_afterAll {operations : List (Adjudicator ρ ε × Operation)} {channel : Channel}
    {earlier later : List (Step ρ ε)} {step : Step ρ ε}
    (hrun : channel.run operations = earlier ++ step :: later) :
    step.before = channel.afterAll earlier := by
  refine (forall_history_of_kept (P := fun steps found => found = channel.afterAll steps) rfl
    (fun earlier step later _ _ => ?_) earlier step later hrun).1
  rw [afterAll, List.getLast?_concat]
  rfl

theorem before_eq_after {operations : List (Adjudicator ρ ε × Operation)} {channel : Channel}
    {earlier later : List (Step ρ ε)} {first second : Step ρ ε}
    (hrun : channel.run operations = earlier ++ first :: second :: later) :
    second.before = first.after := by
  have hprefix : channel.run operations = (earlier ++ [first]) ++ second :: later :=
    hrun.trans (List.append_cons earlier first (second :: later))
  rw [before_eq_afterAll hprefix, afterAll, List.getLast?_concat]
  rfl

end Channel

end DebtChannel
