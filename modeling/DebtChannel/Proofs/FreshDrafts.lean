import DebtChannel.Draft.Operation
import DebtChannel.Proofs.HandedOutTurns
import DebtChannel.Proofs.SettlementPacking

/-!
# A fresh draft can be signed by everyone

A turn that was handed out is worth nothing if it cannot be signed. Three tests stand in the way of
a signature, and a draft that was just handed out passes the first two however it is changed: none
of the changes touches the fixed part or the turn, and the turn is above all that anybody signed.
`Takes` says so much of a channel and a state, and signing the state does not end it.

The third test compares with what is on record for the turn. Above turn one there is nothing, since
only signed turns are recorded there and these are not above the last turn handed out. Turn one is
the boundary: it is on record from the start, with a state that the proposal has made and that a
draft of turn one need not agree with. Whether it does is a matter of the hash alone, and it decides
for all signatures at once.

After the first signature the draft itself is on record for its turn, so nobody behind is refused,
and no slot that was filled is emptied again (`Keeps`). That the signer is found from a signature is
what the recovery of keys promises; the promise is made for the keys and the hash at hand.
-/

namespace DebtChannel

/-- The account that raw key bytes control, if they are a key. -/
def PrivateKey.ownerOf? (key : Bytes) : Option Address :=
  match ofBytes key with
  | .ok secret => some secret.address
  | .error _ => none

/-- The key makes a signature over the hash, and its account is found again from that. -/
def PrivateKey.Recovers (secret : PrivateKey) (hash : Hash) : Prop :=
  (secret.signMessage hash >>= fun sig => sig.recoverSigner hash) = .ok secret.address

theorem PrivateKey.ownerOf?_eq_some_iff {key : Bytes} {account : Address} :
    ownerOf? key = some account ↔ ∃ secret, ofBytes key = .ok secret ∧ secret.address = account := by
  unfold ownerOf?
  cases ofBytes key with
  | error cause => exact ⟨nofun, nofun⟩
  | ok secret =>
      constructor
      · intro h
        exact ⟨secret, rfl, Option.some.inj h⟩
      · rintro ⟨found, hfound, haddress⟩
        obtain rfl := Except.ok.inj hfound
        exact congrArg some haddress

/-- Every key is one of the accounts', every account has its key among them, and the accounts are
found again from what is signed with the keys. The order of the keys is free, and a key may come
more than once. -/
structure SigningKeys (accounts : List Address) (hash : Hash) (keys : List Bytes) : Prop where
  owners : ∀ owner, owner ∈ keys.map PrivateKey.ownerOf? ↔ owner ∈ accounts.map some
  recovers : ∀ key ∈ keys, ∀ secret, PrivateKey.ofBytes key = .ok secret → secret.Recovers hash

/-- The key is that of the account at a place, which is found again from what the key signs. -/
def SignsAt (accounts : List Address) (hash : Hash) (key : Bytes) (index : Nat) : Prop :=
  ∃ secret, PrivateKey.ofBytes key = .ok secret ∧ accounts[index]? = some secret.address ∧
    secret.Recovers hash

namespace SigningKeys

variable {accounts : List Address} {hash : Hash} {keys : List Bytes}

theorem signsAt (h : SigningKeys accounts hash keys) {key : Bytes} (hkey : key ∈ keys) :
    ∃ index, SignsAt accounts hash key index := by
  obtain ⟨account, haccount, howner⟩ :=
    List.mem_map.mp ((h.owners _).mp (List.mem_map_of_mem hkey))
  obtain ⟨secret, hsecret, rfl⟩ := PrivateKey.ownerOf?_eq_some_iff.mp howner.symm
  obtain ⟨index, hplace⟩ := List.mem_iff_getElem?.mp haccount
  exact ⟨index, secret, hsecret, hplace, h.recovers key hkey secret hsecret⟩

theorem exists_signsAt (h : SigningKeys accounts hash keys) {index : Nat}
    (hlt : index < accounts.length) : ∃ key ∈ keys, SignsAt accounts hash key index := by
  have howned : some accounts[index] ∈ keys.map PrivateKey.ownerOf? :=
    (h.owners _).mpr (List.mem_map_of_mem (List.getElem_mem hlt))
  obtain ⟨key, hkey, howner⟩ := List.mem_map.mp howned
  obtain ⟨secret, hsecret, haddress⟩ := PrivateKey.ownerOf?_eq_some_iff.mp howner
  refine ⟨key, hkey, secret, hsecret, ?_, h.recovers key hkey secret hsecret⟩
  rw [haddress]
  exact List.getElem?_eq_getElem hlt

theorem exists_mem (h : SigningKeys accounts hash keys) (hsome : accounts ≠ []) :
    ∃ key, key ∈ keys := by
  obtain ⟨key, hkey, -⟩ := h.exists_signsAt (List.length_pos_iff.mpr hsome)
  exact ⟨key, hkey⟩

end SigningKeys

namespace Channel

variable {ρ ε : Type} {channel : Channel} {state : State}

/-! ## A state that is not refused whoever signs -/

/-- The state belongs to the channel and is not outdated. -/
structure Takes (channel : Channel) (state : State) : Prop where
  fixed_eq : state.toFixedPart = channel.fixed
  fresh : ∀ latest, channel.latestSupported = some latest → latest ≤ state.turn

/-- Such a state is refused only for another one on record for its turn. -/
theorem Takes.refusal?_cases (h : channel.Takes state) :
    (channel.refusal? state = none ∧
      ∀ entry, channel.signedTurn? state.turn = some entry → entry.hash = state.hash) ∨
    (channel.refusal? state = some (.conflictingState state.turn) ∧
      ∃ entry, channel.signedTurn? state.turn = some entry ∧ entry.hash ≠ state.hash) := by
  have hnotStale : channel.latestSupported.filter (state.turn < ·) = none := by
    rw [Option.filter_eq_none_iff]
    intro latest hlatest
    rw [decide_eq_true_eq]
    exact UInt64.not_lt.mpr (h.fresh latest hlatest)
  have hfixed : ¬ (!state.hasFixedPart channel.fixed) = true := by
    simp [State.hasFixedPart, h.fixed_eq]
  rw [refusal?, if_neg hfixed, hnotStale]
  cases hentry : channel.signedTurn? state.turn with
  | none => exact .inl ⟨rfl, nofun⟩
  | some entry =>
      by_cases hhash : entry.hash = state.hash
      · refine .inl ⟨by simp [hhash], fun other hother => ?_⟩
        obtain rfl := Option.some.inj hother
        exact hhash
      · exact .inr ⟨by simp [hhash], entry, rfl, hhash⟩

theorem Takes.record_advance (h : channel.Takes state) (index : Nat) (sig : Signature) :
    ((channel.record state index sig).advance state).Takes state where
  fixed_eq := by
    rw [fixed_advance]
    exact h.fixed_eq
  fresh latest hlatest := by
    rw [latestSupported_advance] at hlatest
    rcases latestSupported_record_cases hlatest with rfl | hold
    · exact UInt64.le_refl _
    · exact h.fresh latest hold

theorem Admits.refusal?_record_advance {index : Nat} {sig : Signature}
    (h : channel.Admits state index sig) :
    ((channel.record state index sig).advance state).refusal? state = none := by
  have htakes : channel.Takes state := ⟨h.fixed_eq, h.fresh⟩
  obtain ⟨hfixed, hfresh⟩ := htakes.record_advance index sig
  refine refusal?_eq_none_iff.mpr ⟨hfixed, hfresh, fun entry hentry => ?_⟩
  rw [signedTurn?_record_advance] at hentry
  obtain rfl := Option.some.inj hentry
  exact h.entryFor_hash

/-! ## One call -/

theorem signatureBy_error {secret : PrivateKey} {cause : SignError}
    (h : signatureBy state secret = .error cause) :
    (∃ failure, cause = .signing failure) ∨ ∃ signer, cause = .notAParticipant signer := by
  unfold signatureBy at h
  rcases eq_error_or_of_bind_eq_error h with hmade | ⟨sig, -, h⟩
  · obtain ⟨failure, -, rfl⟩ := exists_error_of_mapError_eq_error hmade
    exact .inl ⟨failure, rfl⟩
  · rcases eq_error_or_of_bind_eq_error h with hrecover | ⟨signer, -, h⟩
    · obtain ⟨failure, -, rfl⟩ := exists_error_of_mapError_eq_error hrecover
      exact .inl ⟨failure, rfl⟩
    · cases hplace : state.participantIndex? signer with
      | none =>
          rw [hplace] at h
          exact .inr ⟨signer, (Except.error.inj h).symm⟩
      | some index => rw [hplace] at h; cases h

theorem Takes.sign_error {key : Bytes} {cause : SignError} (h : channel.Takes state)
    (hfailed : (sign state key).outcome channel = .error cause) :
    cause ≠ .wrongChannel ∧ ∀ turn latest, cause ≠ .staleState turn latest := by
  rw [outcome_sign] at hfailed
  rcases eq_error_or_of_bind_eq_error hfailed with hkey | ⟨secret, -, hfailed⟩
  · obtain ⟨failure, -, rfl⟩ := exists_error_of_mapError_eq_error hkey
    exact ⟨nofun, nofun⟩
  · rcases eq_error_or_of_bind_eq_error hfailed with hrefused | ⟨_, -, hfailed⟩
    · have hrefusal := eq_some_of_elim_eq_error hrefused
      rcases h.refusal?_cases with ⟨hnone, -⟩ | ⟨hconflict, -⟩
      · rw [hnone] at hrefusal
        cases hrefusal
      · rw [hconflict] at hrefusal
        obtain rfl := Option.some.inj hrefusal
        exact ⟨nofun, nofun⟩
    · rcases eq_error_or_of_bind_eq_error hfailed with hby | ⟨made, -, hfailed⟩
      · rcases signatureBy_error hby with ⟨failure, rfl⟩ | ⟨signer, rfl⟩
        · exact ⟨nofun, nofun⟩
        · exact ⟨nofun, nofun⟩
      · cases hfailed

section Call

variable {key : Bytes} {secret : PrivateKey} {index : Nat} {sig : Signature}

theorem sign_eq_error {cause : SignError} (hkey : PrivateKey.ofBytes key = .ok secret)
    (hrefusal : channel.refusal? state = some cause) :
    (sign state key).outcome channel = .error cause := by
  rw [outcome_sign, hrefusal, mapError_eq_ok hkey]
  rfl

theorem Sound.exists_sign_eq_ok (h : channel.Sound) (hnone : channel.refusal? state = none)
    (hsigns : SignsAt channel.fixed.participants state.hash key index) :
    ∃ sig, channel.Admits state index sig ∧
      (sign state key).outcome channel = .ok (sig, channel.record state index sig) := by
  obtain ⟨secret, hkey, hplace, hrecovers⟩ := hsigns
  obtain ⟨sig, hmade, hrecover⟩ := exists_ok_of_bind_eq_ok hrecovers
  have hindex : state.participantIndex? secret.address = some index := by
    have haccounts : state.participants = channel.fixed.participants := by
      rw [← (refusal?_eq_none_iff.mp hnone).1]
    rw [State.participantIndex?, haccounts]
    exact findIdx?_of_nodup h.nodup hplace
  have hby : signatureBy state secret = .ok (sig, index) := by
    unfold signatureBy
    refine bind_eq_ok (mapError_eq_ok hmade) (bind_eq_ok (mapError_eq_ok hrecover) ?_)
    rw [hindex, Option.elim_some]
  exact ⟨sig, admits_iff.mpr ⟨hnone, (signatureBy_ok hby).2⟩,
    sign_eq_ok_iff.mpr ⟨secret, index, hkey, hnone, hby, rfl⟩⟩

end Call

/-! ## The step of a call -/

section Step

variable {draft : Draft} {key : Bytes} {sig : Signature}

theorem Takes.step_signState (h : channel.Takes draft.state) (adjudicator : Adjudicator ρ ε)
    (key : Bytes) :
    (channel.step adjudicator (.signState draft key)).after.Takes draft.state ∧
    ∀ cause, (channel.step adjudicator (.signState draft key)).answer = .failed (.sign cause) →
      cause ≠ .wrongChannel ∧ ∀ turn latest, cause ≠ .staleState turn latest := by
  cases hsign : (sign draft.state key).outcome channel with
  | error cause =>
      rw [step_signState_of_error adjudicator hsign]
      refine ⟨h, fun found hfound => ?_⟩
      obtain rfl := Failure.sign.inj (Answer.failed.inj hfound)
      exact h.sign_error hsign
  | ok made =>
      obtain ⟨sig, signed⟩ := made
      obtain ⟨index, -, rfl⟩ := sign_ok hsign
      rw [step_signState_of_ok adjudicator hsign]
      exact ⟨h.record_advance index sig, nofun⟩

/-- A state that is signed at a place, is the last one, and is not refused to anybody else. -/
structure SignedAt (channel : Channel) (state : State) (index : Nat) : Prop where
  notRefused : channel.refusal? state = none
  current : channel.lastState = state
  recorded : ∃ entry, channel.signedTurn? state.turn = some entry ∧
    (entry.signatureOf? index).isSome

theorem Sound.step_signState (h : channel.Sound) (adjudicator : Adjudicator ρ ε) {index : Nat}
    (hnone : channel.refusal? draft.state = none)
    (hsigns : SignsAt channel.fixed.participants draft.state.hash key index) :
    (∃ sig, (channel.step adjudicator (.signState draft key)).answer = .signed draft.state sig) ∧
      (channel.step adjudicator (.signState draft key)).after.SignedAt draft.state index := by
  obtain ⟨sig, hadmits, hsign⟩ := h.exists_sign_eq_ok hnone hsigns
  rw [step_signState_of_ok adjudicator hsign]
  refine ⟨⟨sig, rfl⟩, hadmits.refusal?_record_advance, lastState_advance _ _, ?_⟩
  obtain ⟨entry, hentry, -, hslot⟩ := h.recorded hadmits
  refine ⟨entry, ?_, by rw [hslot]; rfl⟩
  rw [signedTurn?_advance]
  exact hentry

end Step

/-! ## One call after the other -/

/-- The calls that sign a draft with one key after the other. -/
def signings (adjudicator : Adjudicator ρ ε) (draft : Draft) (keys : List Bytes) :
    List (Adjudicator ρ ε × Operation) :=
  keys.map fun key => (adjudicator, .signState draft key)

/-- Every call has signed the state, and at the end everyone has: its turn is supported, no later
one is, and it is the last state. -/
structure Completes (channel : Channel) (state : State) (steps : List (Step ρ ε)) : Prop where
  signed : ∀ step ∈ steps, ∃ sig, step.answer = .signed state sig
  supported : (channel.afterAll steps).isSupported state.turn = true
  latest : (channel.afterAll steps).latestSupported = some state.turn
  current : (channel.afterAll steps).lastState = state

section Signings

variable {draft : Draft} {keys : List Bytes} {adjudicator : Adjudicator ρ ε}

theorem exists_key_of_mem_signings {step : Step ρ ε}
    (hmem : step ∈ channel.run (signings adjudicator draft keys)) :
    ∃ key ∈ keys, step.operation = .signState draft key ∧
      ∃ adjudicator, step = step.before.step adjudicator (.signState draft key) := by
  obtain ⟨asked, hasked⟩ := exists_mem_of_mem_run hmem
  obtain ⟨key, hkey, hpair⟩ := List.mem_map.mp hasked
  obtain ⟨-, hoperation⟩ := Prod.mk.inj hpair
  have hstep := eq_step_operation_of_mem_run hmem
  rw [← hoperation] at hstep
  exact ⟨key, hkey, hoperation.symm, hstep⟩

variable (channel adjudicator draft) in
theorem exists_mem_signings {key : Bytes} (hkey : key ∈ keys) :
    ∃ step ∈ channel.run (signings adjudicator draft keys),
      step.operation = .signState draft key := by
  have hoperation : Operation.signState draft key
      ∈ (channel.run (signings adjudicator draft keys)).map Step.operation := by
    rw [map_operation_run, signings, List.map_map]
    exact List.mem_map_of_mem (f := fun key => Operation.signState draft key) hkey
  exact List.mem_map.mp hoperation

theorem Takes.of_mem_signings (h : channel.Takes draft.state) {step : Step ρ ε}
    (hmem : step ∈ channel.run (signings adjudicator draft keys)) :
    step.answer ≠ .failed (.sign .wrongChannel) ∧
      ∀ turn latest, step.answer ≠ .failed (.sign (.staleState turn latest)) := by
  have hkept : ∀ step ∈ channel.run (signings adjudicator draft keys),
      step.before.Takes draft.state → step.after.Takes draft.state := by
    intro step hmem hbefore
    obtain ⟨key, -, -, asked, hstep⟩ := exists_key_of_mem_signings hmem
    rw [hstep]
    exact (hbefore.step_signState asked key).1
  obtain ⟨hbefore, -⟩ :=
    forall_mem_run_of_kept (P := fun c => c.Takes draft.state) h hkept step hmem
  obtain ⟨key, -, -, asked, hstep⟩ := exists_key_of_mem_signings hmem
  have hanswer := (hbefore.step_signState asked key).2
  rw [← hstep] at hanswer
  exact ⟨fun hfailed => (hanswer _ hfailed).1 rfl,
    fun turn latest hfailed => (hanswer _ hfailed).2 turn latest rfl⟩

theorem answer_of_refused {accounts : List Address} {cause : SignError}
    (hkeys : SigningKeys accounts draft.state.hash keys)
    (hrefusal : channel.refusal? draft.state = some cause) {step : Step ρ ε}
    (hmem : step ∈ channel.run (signings adjudicator draft keys)) :
    step.answer = .failed (.sign cause) := by
  have hfailed : ∀ step ∈ channel.run (signings adjudicator draft keys), step.before = channel →
      step.answer = .failed (.sign cause) ∧ step.after = channel := by
    intro step hmem hbefore
    obtain ⟨key, hkey, -, asked, hstep⟩ := exists_key_of_mem_signings hmem
    obtain ⟨index, secret, hsecret, -⟩ := hkeys.signsAt hkey
    rw [hstep, hbefore, step_signState_of_error asked (sign_eq_error hsecret hrefusal)]
    exact ⟨rfl, rfl⟩
  obtain ⟨hbefore, -⟩ := forall_mem_run_of_kept (P := (· = channel)) rfl
    (fun step hmem hbefore => (hfailed step hmem hbefore).2) step hmem
  exact (hfailed step hmem hbefore).1

theorem signedAt_of_mem_signings (h : Reachable channel)
    (hnone : channel.refusal? draft.state = none)
    (hkeys : SigningKeys channel.fixed.participants draft.state.hash keys) {step : Step ρ ε}
    (hmem : step ∈ channel.run (signings adjudicator draft keys)) {key : Bytes} {index : Nat}
    (hoperation : step.operation = .signState draft key)
    (hsigns : SignsAt channel.fixed.participants draft.state.hash key index) :
    (∃ sig, step.answer = .signed draft.state sig) ∧ step.after.SignedAt draft.state index := by
  have hcall : ∀ step ∈ channel.run (signings adjudicator draft keys),
      step.before.refusal? draft.state = none → ∀ key index,
      step.operation = .signState draft key →
      SignsAt channel.fixed.participants draft.state.hash key index →
      (∃ sig, step.answer = .signed draft.state sig) ∧ step.after.SignedAt draft.state index := by
    intro step hmem hbefore key index hoperation hsigns
    obtain ⟨asked, hstep⟩ := eq_step_operation_of_mem_run hmem
    rw [← (sameTerms_of_mem_run hmem).1.fixed_eq] at hsigns
    rw [hstep, hoperation]
    exact (reachable_of_mem_run h hmem).1.sound.step_signState asked hbefore hsigns
  have hkept : ∀ step ∈ channel.run (signings adjudicator draft keys),
      step.before.refusal? draft.state = none → step.after.refusal? draft.state = none := by
    intro step hmem hbefore
    obtain ⟨key, hkey, hoperation, -⟩ := exists_key_of_mem_signings hmem
    obtain ⟨index, hsigns⟩ := hkeys.signsAt hkey
    exact (hcall step hmem hbefore key index hoperation hsigns).2.notRefused
  obtain ⟨hbefore, -⟩ :=
    forall_mem_run_of_kept (P := fun c => c.refusal? draft.state = none) hnone hkept step hmem
  exact hcall step hmem hbefore key index hoperation hsigns

variable (channel adjudicator draft) in
theorem run_signings_ne_nil (h : ∃ key, key ∈ keys) :
    channel.run (signings adjudicator draft keys) ≠ [] := by
  obtain ⟨key, hkey⟩ := h
  obtain ⟨step, hmem, -⟩ := exists_mem_signings channel draft adjudicator hkey
  exact List.ne_nil_of_mem hmem

variable (adjudicator)

theorem exists_signedAt_afterAll (h : Reachable channel)
    (hnone : channel.refusal? draft.state = none)
    (hkeys : SigningKeys channel.fixed.participants draft.state.hash keys) :
    ∃ index, (channel.afterAll (channel.run (signings adjudicator draft keys))).SignedAt
      draft.state index := by
  obtain ⟨last, hlast, hend⟩ := exists_mem_afterAll_eq channel
    (run_signings_ne_nil channel draft adjudicator (hkeys.exists_mem h.sound.nonempty))
  obtain ⟨key, hkey, hoperation, -⟩ := exists_key_of_mem_signings hlast
  obtain ⟨index, hsigns⟩ := hkeys.signsAt hkey
  rw [hend]
  exact ⟨index, (signedAt_of_mem_signings h hnone hkeys hlast hoperation hsigns).2⟩

/-- In the end every slot is filled: the call with the key of its account filled it, and nothing has
emptied it since. -/
theorem isSupported_afterAll (h : Reachable channel) (hnone : channel.refusal? draft.state = none)
    (hkeys : SigningKeys channel.fixed.participants draft.state.hash keys) :
    (channel.afterAll (channel.run (signings adjudicator draft keys))).isSupported draft.state.turn
      = true := by
  obtain ⟨-, -, -, entry, hentry, -⟩ := exists_signedAt_afterAll adjudicator h hnone hkeys
  have hsound := (h.afterAll (signings adjudicator draft keys)).sound
  rw [isSupported_eq_any, hentry, Option.any_some, SignedTurn.isComplete_iff_isSome,
    (hsound.entries draft.state.turn entry hentry).length_slots,
    (sameTerms_afterAll channel (signings adjudicator draft keys)).fixed_eq]
  intro index hlt
  obtain ⟨key, hkey, hsigns⟩ := hkeys.exists_signsAt hlt
  obtain ⟨step, hmem, hoperation⟩ := exists_mem_signings channel draft adjudicator hkey
  obtain ⟨-, -, -, filled, hfilled, hslot⟩ :=
    signedAt_of_mem_signings h hnone hkeys hmem hoperation hsigns
  obtain ⟨kept, hkept, -, -, hslots⟩ :=
    (keeps_afterAll_of_mem_run hmem).entries draft.state.turn filled hfilled
  obtain rfl := Option.some.inj (hkept.symm.trans hentry)
  exact hslots index hslot

theorem completes_of_refusal?_eq_none (h : Reachable channel)
    (hnone : channel.refusal? draft.state = none)
    (hkeys : SigningKeys channel.fixed.participants draft.state.hash keys) :
    channel.Completes draft.state (channel.run (signings adjudicator draft keys)) := by
  obtain ⟨_, hend⟩ := exists_signedAt_afterAll adjudicator h hnone hkeys
  have hsupported := isSupported_afterAll adjudicator h hnone hkeys
  have hordered := (h.afterAll (signings adjudicator draft keys)).ordered
  obtain ⟨latest, hlatest, hle⟩ := hordered.supported_le draft.state.turn hsupported
  have hge : latest ≤ draft.state.turn :=
    (refusal?_eq_none_iff.mp hend.notRefused).2.1 latest hlatest
  refine ⟨fun step hmem => ?_, hsupported, ?_, hend.current⟩
  · obtain ⟨key, hkey, hoperation, -⟩ := exists_key_of_mem_signings hmem
    obtain ⟨index, hsigns⟩ := hkeys.signsAt hkey
    exact (signedAt_of_mem_signings h hnone hkeys hmem hoperation hsigns).1
  · rw [hlatest, UInt64.le_antisymm hge hle]

theorem not_completes_of_refused {accounts : List Address} {cause : SignError}
    (hkeys : SigningKeys accounts draft.state.hash keys) (hsome : accounts ≠ [])
    (hrefusal : channel.refusal? draft.state = some cause) :
    ¬ channel.Completes draft.state (channel.run (signings adjudicator draft keys)) := by
  intro hcompletes
  obtain ⟨key, hkey⟩ := hkeys.exists_mem hsome
  obtain ⟨step, hmem, -⟩ := exists_mem_signings channel draft adjudicator hkey
  obtain ⟨sig, hsigned⟩ := hcompletes.signed step hmem
  rw [answer_of_refused hkeys hrefusal hmem] at hsigned
  cases hsigned

end Signings

/-! ## After a proposal -/

theorem Takes.of_revises {revised : State} (h : channel.Takes state)
    (hrevises : Draft.Revises revised state) : channel.Takes revised where
  fixed_eq := hrevises.fixed_eq.trans h.fixed_eq
  fresh := by
    rw [hrevises.turn_eq]
    exact h.fresh

section Proposed

variable {after : Channel} {draft : Draft}

theorem Effect.takes_proposed (heffect : Effect (ρ := ρ) (ε := ε) channel (.proposed draft) after)
    (h : Reachable after) : after.Takes draft.state := by
  obtain ⟨-, -, hlast, -⟩ := heffect.handsOut
  rw [← hlast]
  exact ⟨h.lastState_fixed, h.ordered.latest_le⟩

/-- Above turn one, nothing is on record for a turn that was just handed out. -/
theorem Effect.signedTurn?_proposed
    (heffect : Effect (ρ := ρ) (ε := ε) channel (.proposed draft) after) (h : Reachable channel)
    (htwo : 2 ≤ draft.state.turn) : after.signedTurn? draft.state.turn = none := by
  have hturns : after.signedTurn? draft.state.turn = channel.signedTurn? draft.state.turn := by
    cases heffect
    rfl
  rw [hturns]
  cases hentry : channel.signedTurn? draft.state.turn with
  | none => rfl
  | some entry =>
      have hsigned : entry.hasSignatures = true := by
        refine h.counted.signed draft.state.turn entry hentry (fun hzero => ?_) (fun hone => ?_)
        · rw [hzero] at htwo
          exact absurd htwo (by decide)
        · rw [hone] at htwo
          exact absurd htwo (by decide)
      have hlt := (lt_handedOut h.ordered h.counted heffect).2 draft.state.turn entry hentry hsigned
      exact absurd hlt (UInt64.lt_irrefl _)

end Proposed

theorem signedTurn?_one_of_mem_run {opening : Opening} {partIndex : UInt64} {config : Config}
    (h : create opening partIndex config = .ok channel)
    {operations : List (Adjudicator ρ ε × Operation)} {step : Step ρ ε}
    (hmem : step ∈ channel.run operations) :
    ∃ entry, step.after.signedTurn? 1 = some entry ∧
      entry.hash = ({ opening.state with turn := 1 } : State).hash := by
  obtain ⟨-, -, rfl⟩ := create_ok h
  have hseeded : (ofOpening opening partIndex config.proposalPolicy).signedTurn? 1
      = some (.ofState { opening.state with turn := 1 }) := rfl
  obtain ⟨entry, hentry, -, hhash, -⟩ := (keeps_of_mem_run hmem).2.entries 1 _ hseeded
  exact ⟨entry, hentry, hhash⟩

/-- A draft that was just handed out can be signed by everyone, whatever was done with it in the
meantime. No call ever says that it is of another channel or outdated. With a key of every member,
in any order, all calls succeed if its turn is at least two, and at the end the turn is supported,
none later is, and the draft is the last state. The same is true of turn one if the draft has the
hash of the state that is on record for it from the start, and only then; otherwise every call
fails with a conflict. -/
theorem fresh_drafts_are_signed_by_everyone {opening : Opening} {partIndex : UInt64}
    {config : Config} (h : create opening partIndex config = .ok channel)
    (operations : List (Adjudicator ρ ε × Operation)) {proposing : Step ρ ε}
    (hmem : proposing ∈ channel.run operations) {draft : Draft}
    (hproposed : proposing.answer = .proposed draft) (changes : List Draft.Operation)
    (adjudicator : Adjudicator ρ ε) (keys : List Bytes) :
    let changed := draft.afterAll changes
    let steps := proposing.after.run (signings adjudicator changed keys)
    changed.state.turn = draft.state.turn ∧
    (draft.state.turn = 1 ∨ 2 ≤ draft.state.turn) ∧
    (∀ step ∈ steps, step.answer ≠ .failed (.sign .wrongChannel) ∧
      ∀ turn latest, step.answer ≠ .failed (.sign (.staleState turn latest))) ∧
    (SigningKeys (channel.participants.map Participant.address) changed.state.hash keys →
      (2 ≤ draft.state.turn → proposing.after.Completes changed.state steps) ∧
      (draft.state.turn = 1 →
        (proposing.after.Completes changed.state steps ↔
          changed.state.hash = ({ opening.state with turn := 1 } : State).hash) ∧
        (changed.state.hash ≠ ({ opening.state with turn := 1 } : State).hash →
          ∀ step ∈ steps, step.answer = .failed (.sign (.conflictingState 1))))) := by
  intro changed steps
  have hrevises : Draft.Revises changed.state draft.state := Draft.revises_afterAll draft changes
  obtain ⟨hbefore, hafter⟩ := reachable_of_mem_run (.create h) hmem
  have heffect := effect_of_answer hmem hproposed
  have htakes : proposing.after.Takes changed.state :=
    (heffect.takes_proposed hafter).of_revises hrevises
  refine ⟨hrevises.turn_eq, ?_, fun step hstep => htakes.of_mem_signings hstep, fun hkeys => ?_⟩
  · have hlt := UInt64.lt_iff_toNat_lt.mp heffect.handsOut.1
    rw [← UInt64.toNat_inj, UInt64.le_iff_toNat_le]
    show draft.state.turn.toNat = 1 ∨ 2 ≤ draft.state.turn.toNat
    omega
  have haccounts : channel.participants.map Participant.address
      = proposing.after.fixed.participants := by
    rw [(sound_create h).accounts, (sameTerms_of_mem_run hmem).2.fixed_eq]
  rw [haccounts] at hkeys
  refine ⟨fun htwo => ?_, fun hone => ?_⟩
  · have hentry := heffect.signedTurn?_proposed hbefore htwo
    rw [← hrevises.turn_eq] at hentry
    rcases htakes.refusal?_cases with ⟨hnone, -⟩ | ⟨-, entry, hsome, -⟩
    · exact completes_of_refusal?_eq_none adjudicator hafter hnone hkeys
    · rw [hentry] at hsome
      cases hsome
  · obtain ⟨seeded, hseeded, hhash⟩ := signedTurn?_one_of_mem_run h hmem
    have hturn : changed.state.turn = 1 := hrevises.turn_eq.trans hone
    rw [← hturn] at hseeded
    rw [← hhash]
    rcases htakes.refusal?_cases with ⟨hnone, hagrees⟩ | ⟨hconflict, entry, hentry, hne⟩
    · -- Nobody is refused, so the draft agrees with the record.
      have hsame := (hagrees seeded hseeded).symm
      exact ⟨⟨fun _ => hsame, fun _ => completes_of_refusal?_eq_none adjudicator hafter hnone hkeys⟩,
        fun hne => absurd hsame hne⟩
    · obtain rfl := Option.some.inj (hseeded.symm.trans hentry)
      have hnot := not_completes_of_refused adjudicator hkeys hafter.sound.nonempty hconflict
      rw [hturn] at hconflict
      exact ⟨⟨fun hcompletes => absurd hcompletes hnot, fun hsame => absurd hsame.symm hne⟩,
        fun _ step hstep => answer_of_refused hkeys hconflict hstep⟩

/-! ## Two members -/

/-- Turn two is handed out behind turn one. -/
def duoProposing : Step Unit Unit :=
  (duo.step accepting .proposeState).after.step accepting .proposeState

def duoDraft : Draft := ⟨{ duoOpening.state with turn := 2 }, .empty⟩

/-- The first member owes the second something, and that is approved. -/
def duoChanges : List Draft.Operation :=
  [.request ⟨0, 1⟩ "USD" 5, .acknowledge ⟨0, 1⟩ "USD" 5, .approve]

/-- The private key of the second member. -/
def duoKey : Bytes := Bytes.zeros 31 ++ [2]

theorem owners_duo :
    [duoKey, soloKey].map PrivateKey.ownerOf?
      = duoOpening.state.participants.reverse.map some := by
  decide +kernel

theorem signers_duo :
    [(⟨2, by decide, by decide⟩ : PrivateKey), ⟨1, by decide, by decide⟩].map
        (fun secret => (secret.signMessage (duoDraft.afterAll duoChanges).state.hash >>= fun sig =>
          sig.recoverSigner (duoDraft.afterAll duoChanges).state.hash).toOption)
      = duoOpening.state.participants.reverse.map some := by
  decide +kernel

theorem recovers_of_owner {key : Bytes} {known : PrivateKey} {account : Address} {hash : Hash}
    (hkey : PrivateKey.ofBytes key = .ok known) (howner : PrivateKey.ownerOf? key = some account)
    (hsigner : (known.signMessage hash >>= fun sig => sig.recoverSigner hash).toOption
      = some account) (secret : PrivateKey) (hsecret : PrivateKey.ofBytes key = .ok secret) :
    secret.Recovers hash := by
  obtain ⟨found, hfound, rfl⟩ := PrivateKey.ownerOf?_eq_some_iff.mp howner
  obtain rfl := Except.ok.inj (hkey.symm.trans hsecret)
  obtain rfl := Except.ok.inj (hkey.symm.trans hfound)
  exact eq_ok_of_toOption_eq_some hsigner

theorem signingKeys_duo :
    SigningKeys duoOpening.state.participants (duoDraft.afterAll duoChanges).state.hash
      [duoKey, soloKey] := by
  have howners := owners_duo
  have hsigners := signers_duo
  refine ⟨fun owner => ?_, fun key hkey => ?_⟩
  · rw [howners, List.map_reverse, List.mem_reverse]
  · simp only [duoOpening, soloOpening, List.map_cons, List.map_nil, List.cons_append,
      List.nil_append, List.reverse_cons, List.reverse_nil, List.cons.injEq] at howners hsigners
    rw [List.mem_cons, List.mem_singleton] at hkey
    rcases hkey with rfl | rfl
    · exact recovers_of_owner rfl howners.1 hsigners.1
    · exact recovers_of_owner rfl howners.2.1 hsigners.2.1

theorem duo_signs_what_is_owed :
    create duoOpening 0 = .ok duo ∧ duoProposing.answer = .proposed duoDraft ∧
    SigningKeys (duo.participants.map Participant.address)
      (duoDraft.afterAll duoChanges).state.hash [duoKey, soloKey] ∧
    2 ≤ duoDraft.state.turn ∧
    duoProposing.after.Completes (duoDraft.afterAll duoChanges).state
      (duoProposing.after.run
        (signings accepting (duoDraft.afterAll duoChanges) [duoKey, soloKey])) := by
  have hcreate : create duoOpening 0 = .ok duo := rfl
  have hmem : duoProposing
      ∈ duo.run [(accepting, .proposeState), (accepting, .proposeState)] := by
    rw [run_cons, run_cons]
    exact List.mem_cons_of_mem _ List.mem_cons_self
  have hproposed : duoProposing.answer = .proposed duoDraft := by decide +kernel
  have htwo : 2 ≤ duoDraft.state.turn := by decide
  obtain ⟨-, -, -, hsigned⟩ := fresh_drafts_are_signed_by_everyone hcreate _ hmem hproposed
    duoChanges accepting [duoKey, soloKey]
  exact ⟨hcreate, hproposed, signingKeys_duo, htwo, (hsigned signingKeys_duo).1 htwo⟩

end Channel

end DebtChannel
