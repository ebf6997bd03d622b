import DebtChannel.Proofs.ChannelStep

/-!
# Every signature on record is that of the participant it stands for

A channel looks a signer up once, when the signature is made, and from then on trusts the place it
found. This file shows that the trust is earned, at any time in the life of any channel. The
invariant is `Sound`: the members are the accounts of the fixed part, which are all different, and
every turn on record is a state of the channel with that number, under its own hash, with one slot
per participant, and each filled slot holds a signature that leads back to the account of its place.

Two facts meet in the step that matters. The place was found in the participants of the signed
state, and the slots belong to those of the entry on record; both are the participants of the fixed
part. And the signature leads to its signer over the hash of the signed state, while the entry is
kept under its own; the check for a conflicting state makes them one.

That no account is listed twice is checked once, when the channel begins. Without it the map from
accounts to signatures would have fewer entries than there are slots, and `checkSignature` would
answer with the first place of an account and not with the place of the signature.
-/

namespace DebtChannel

/-! ## How a channel begins -/

theorem Participant.map_address_of_inPlace :
    ∀ {participants : List Participant} {accounts : List Address} {start : Nat},
      inPlace start participants accounts = true →
      participants.map Participant.address = accounts := by
  intro participants
  induction participants with
  | nil =>
      intro accounts start h
      cases accounts with
      | nil => rfl
      | cons account accounts => cases h
  | cons participant participants ih =>
      intro accounts start h
      cases accounts with
      | nil => cases h
      | cons account accounts =>
          rw [inPlace, Bool.and_eq_true, Bool.and_eq_true] at h
          obtain ⟨⟨-, haccount⟩, hrest⟩ := h
          rw [List.map_cons, ih hrest, eq_of_beq haccount]

theorem State.distinct_iff_nodup {accounts : List Address} :
    distinct accounts = true ↔ accounts.Nodup := by
  induction accounts with
  | nil => simp [distinct]
  | cons account accounts ih => simp [distinct, ih]

/-- A state without defect: the participants are different accounts, and every asset is shared out
among exactly them. -/
structure State.WellFormed (state : State) : Prop where
  participants : state.participants ≠ []
  nodup : state.participants.Nodup
  outcome : state.outcome ≠ []
  shares : ∀ exit ∈ state.outcome, exit.allocations.length = state.participants.length

theorem State.defect?_eq_none_iff {state : State} : state.defect? = none ↔ state.WellFormed := by
  constructor
  · intro h
    unfold defect? at h
    split at h
    · cases h
    · next hsome =>
        split at h
        · cases h
        · next hdistinct =>
            split at h
            · cases h
            · next hexit =>
                split at h
                · cases h
                · next hshares =>
                    refine ⟨by simpa using hsome, distinct_iff_nodup.mp (by simpa using hdistinct),
                      by simpa using hexit, fun exit hmem => ?_⟩
                    simpa using (fun hne => hshares (List.any_eq_true.mpr ⟨exit, hmem, hne⟩))
  · intro h
    have hdistinct : distinct state.participants = true := distinct_iff_nodup.mpr h.nodup
    have hshares : ¬ (state.outcome.any fun exit =>
        exit.allocations.length != state.participants.length) = true := by
      simpa using h.shares
    rw [defect?, if_neg (by simpa using h.participants), if_neg (by simp [hdistinct]),
      if_neg (by simpa using h.outcome), if_neg hshares]

namespace Channel

theorem initialDefect?_eq_none {opening : Opening} (h : initialDefect? opening = none) :
    opening.state.turn = 0 ∧ opening.state.isFinal = false ∧ opening.state.defect? = none ∧
      Participant.inPlace 0 opening.participants opening.state.participants = true := by
  unfold initialDefect? at h
  split at h
  · cases h
  · next hturn =>
      split at h
      · cases h
      · next hfinal =>
          split at h
          · cases h
          · next hdefect =>
              split at h
              · next hplaces =>
                  exact ⟨by simpa using hturn, by simpa using hfinal, hdefect, hplaces⟩
              · cases h

theorem create_ok {opening : Opening} {partIndex : UInt64} {config : Config} {channel : Channel}
    (h : create opening partIndex config = .ok channel) :
    initialDefect? opening = none ∧ partIndex.toNat < opening.participants.length ∧
      channel = ofOpening opening partIndex config.proposalPolicy := by
  unfold create at h
  split at h
  · cases h
  · next hnone =>
      split at h
      · next hlt => exact ⟨hnone, hlt, (Except.ok.inj h).symm⟩
      · cases h

/-- A channel at some time of its life: a proposal began it, and then came any operations, whatever
the adjudicator answered. -/
inductive Reachable : Channel → Prop where
  | create {opening : Opening} {partIndex : UInt64} {config : Config} {channel : Channel}
      (h : Channel.create opening partIndex config = .ok channel) : Reachable channel
  | step {ρ ε : Type} {channel : Channel} (adjudicator : Adjudicator ρ ε) (operation : Operation)
      (h : Reachable channel) : Reachable (channel.step adjudicator operation).after

end Channel

/-! ## The invariant -/

/-- What makes an entry the right one for a turn of a channel. -/
structure SignedTurn.Sound (fixed : FixedPart) (turn : UInt64) (entry : SignedTurn) : Prop where
  turn_eq : entry.state.turn = turn
  fixed_eq : entry.state.toFixedPart = fixed
  hash_eq : entry.hash = entry.state.hash
  length_slots : entry.slots.length = fixed.participants.length
  recovers : ∀ index sig, entry.signatureOf? index = some sig →
    ∃ account, fixed.participants[index]? = some account ∧
      sig.recoverSigner entry.hash = .ok account

namespace SignedTurn

theorem signatureOf?_ofState {state : State} {index : Nat} :
    (ofState state).signatureOf? index = none := by
  unfold signatureOf? ofState
  rw [List.getElem?_map]
  cases state.participants[index]? <;> rfl

theorem sound_ofState (state : State) : (ofState state).Sound state.toFixedPart state.turn where
  turn_eq := rfl
  fixed_eq := rfl
  hash_eq := rfl
  length_slots := List.length_map _
  recovers := by
    intro index sig h
    rw [signatureOf?_ofState] at h
    cases h

theorem Sound.addSignature {fixed : FixedPart} {turn : UInt64} {entry : SignedTurn} {index : Nat}
    {sig : Signature} {account : Address} (h : entry.Sound fixed turn)
    (hplace : fixed.participants[index]? = some account)
    (hrecover : sig.recoverSigner entry.hash = .ok account) :
    (entry.addSignature index sig).Sound fixed turn where
  turn_eq := h.turn_eq
  fixed_eq := h.fixed_eq
  hash_eq := h.hash_eq
  length_slots := by
    rw [← h.length_slots]
    exact List.length_set
  recovers := by
    intro other found hfound
    obtain ⟨hlt, -⟩ := List.getElem?_eq_some_iff.mp hplace
    rw [signatureOf?_addSignature (h.length_slots ▸ hlt)] at hfound
    split at hfound
    · next heq =>
        obtain rfl := Option.some.inj hfound
        exact ⟨account, heq ▸ hplace, hrecover⟩
    · exact h.recovers other found hfound

theorem Sound.placed {fixed : FixedPart} {turn : UInt64} {entry : SignedTurn}
    (h : entry.Sound fixed turn) (hnodup : fixed.participants.Nodup) : entry.Placed where
  length_slots := by rw [h.length_slots, h.fixed_eq]
  nodup := by rw [h.fixed_eq]; exact hnodup

end SignedTurn

namespace Channel

/-- What holds of the members and of the turns on record at any time. -/
structure Sound (channel : Channel) : Prop where
  accounts : channel.participants.map Participant.address = channel.fixed.participants
  nodup : channel.fixed.participants.Nodup
  nonempty : channel.fixed.participants ≠ []
  entries : ∀ turn entry, channel.signedTurn? turn = some entry → entry.Sound channel.fixed turn

/-- A channel begins with turns zero and one on record, unsigned, and with no other. -/
theorem signedTurn?_ofOpening {opening : Opening} {partIndex : UInt64} {policy : ProposalPolicy}
    {turn : UInt64} {entry : SignedTurn}
    (h : (ofOpening opening partIndex policy).signedTurn? turn = some entry) :
    (turn = 0 ∧ entry = .ofState opening.state) ∨
      (turn = 1 ∧ entry = .ofState { opening.state with turn := 1 }) := by
  unfold signedTurn? SignedTurns.get? at h
  split at h
  · next hzero => exact .inl ⟨hzero, (Option.some.inj h).symm⟩
  · split at h
    · next hone => exact .inr ⟨hone, (Option.some.inj h).symm⟩
    · rw [show (ofOpening opening partIndex policy).turns.later = ∅ from rfl,
        Std.ExtTreeMap.getElem?_empty] at h
      cases h

theorem sound_create {opening : Opening} {partIndex : UInt64} {config : Config} {channel : Channel}
    (h : create opening partIndex config = .ok channel) : channel.Sound := by
  obtain ⟨hnone, -, rfl⟩ := create_ok h
  obtain ⟨hturn, -, hdefect, hplaces⟩ := initialDefect?_eq_none hnone
  obtain ⟨hsome, hnodup, -, -⟩ := State.defect?_eq_none_iff.mp hdefect
  refine ⟨Participant.map_address_of_inPlace hplaces, hnodup, hsome, ?_⟩
  intro turn entry hentry
  rcases signedTurn?_ofOpening hentry with ⟨rfl, rfl⟩ | ⟨rfl, rfl⟩
  · rw [← hturn]
    exact SignedTurn.sound_ofState opening.state
  · exact SignedTurn.sound_ofState { opening.state with turn := 1 }

theorem Sound.of_eq {channel other : Channel} (h : channel.Sound)
    (hparticipants : other.participants = channel.participants)
    (hfixed : other.fixed = channel.fixed) (hturns : other.turns = channel.turns) :
    other.Sound where
  accounts := by rw [hparticipants, hfixed]; exact h.accounts
  nodup := by rw [hfixed]; exact h.nodup
  nonempty := by rw [hfixed]; exact h.nonempty
  entries := by
    intro turn entry hentry
    rw [hfixed]
    refine h.entries turn entry ?_
    rw [← hentry]
    unfold signedTurn?
    rw [hturns]

theorem Sound.entryFor {channel : Channel} {state : State} {index : Nat} {sig : Signature}
    (h : channel.Sound) (hadmits : channel.Admits state index sig) :
    (channel.entryFor state).Sound channel.fixed state.turn := by
  cases hentry : channel.signedTurn? state.turn with
  | none =>
      rw [Channel.entryFor, hentry, Option.getD_none, ← hadmits.fixed_eq]
      exact SignedTurn.sound_ofState state
  | some entry =>
      rw [entryFor_of_signedTurn? hentry]
      exact h.entries _ _ hentry

theorem Sound.record {channel : Channel} {state : State} {index : Nat} {sig : Signature}
    (h : channel.Sound) (hadmits : channel.Admits state index sig) :
    (channel.record state index sig).Sound where
  accounts := h.accounts
  nodup := h.nodup
  nonempty := h.nonempty
  entries := by
    intro turn entry hentry
    rw [signedTurn?_record] at hentry
    split at hentry
    · next hturn =>
        obtain rfl := Option.some.inj hentry
        obtain ⟨account, hrecover, hplace⟩ := hadmits.signed
        have hplace := getElem?_of_participantIndex? hplace
        rw [hadmits.fixed_eq] at hplace
        rw [← hturn]
        exact (h.entryFor hadmits).addSignature hplace (hadmits.entryFor_hash ▸ hrecover)
    · exact h.entries turn entry hentry

theorem Sound.advance {channel : Channel} (h : channel.Sound) (state : State) :
    (channel.advance state).Sound :=
  h.of_eq (participants_advance channel state) (fixed_advance channel state)
    (turns_advance channel state)

theorem Effect.sound {ρ ε : Type} {channel after : Channel} {answer : Answer ρ ε}
    (heffect : Effect channel answer after) (h : channel.Sound) : after.Sound := by
  cases heffect with
  | failed cause => exact h
  | approved index sig hadmits => exact h.record hadmits
  | signed state index sig hadmits => exact (h.record hadmits).advance state
  | proposed draft hproposes => exact h.of_eq rfl rfl rfl
  | deposited receipt hcomplete => exact h.of_eq rfl rfl rfl
  | settled receipt hconcluded hfinal => exact h.of_eq rfl rfl rfl

theorem sound_step {ρ ε : Type} {channel : Channel} (h : channel.Sound)
    (adjudicator : Adjudicator ρ ε) (operation : Operation) :
    (channel.step adjudicator operation).after.Sound :=
  (channel.step_effect adjudicator operation).sound h

theorem Reachable.sound {channel : Channel} (h : Reachable channel) : channel.Sound := by
  induction h with
  | create h => exact sound_create h
  | step adjudicator operation _ ih => exact sound_step ih adjudicator operation

theorem reachable_of_mem_run {ρ ε : Type} {channel : Channel} (h : Reachable channel)
    {operations : List (Adjudicator ρ ε × Operation)} {step : Step ρ ε}
    (hmem : step ∈ channel.run operations) : Reachable step.before ∧ Reachable step.after := by
  refine forall_mem_run_of_kept h (fun step hmem hbefore => ?_) step hmem
  obtain ⟨adjudicator, operation, hstep⟩ := eq_step_of_mem_run hmem
  rw [hstep]
  exact hbefore.step adjudicator operation

theorem Reachable.afterAll {ρ ε : Type} {channel : Channel} (h : Reachable channel)
    (operations : List (Adjudicator ρ ε × Operation)) :
    Reachable (channel.afterAll (channel.run operations)) :=
  afterAll_of_forall h fun _ hmem => (reachable_of_mem_run h hmem).2

/-! ## The last state belongs to the channel -/

theorem Effect.lastState_fixed {ρ ε : Type} {channel after : Channel} {answer : Answer ρ ε}
    (heffect : Effect channel answer after) (h : channel.lastState.toFixedPart = channel.fixed) :
    after.lastState.toFixedPart = after.fixed := by
  cases heffect with
  | failed cause => exact h
  | approved index sig hadmits => exact h
  | signed state index sig hadmits =>
      rw [lastState_advance, fixed_advance]
      exact hadmits.fixed_eq
  | proposed draft hproposes =>
      show draft.state.toFixedPart = channel.fixed
      rw [hproposes.state_eq]
      exact h
  | deposited receipt hcomplete => exact h
  | settled receipt hconcluded hfinal => exact h

theorem Reachable.lastState_fixed {channel : Channel} (h : Reachable channel) :
    channel.lastState.toFixedPart = channel.fixed := by
  induction h with
  | create h =>
      obtain ⟨-, -, rfl⟩ := create_ok h
      rfl
  | step adjudicator operation _ ih =>
      exact (step_effect _ adjudicator operation).lastState_fixed ih

/-! ## What the invariant says of the signatures -/

theorem findIdx?_of_nodup {accounts : List Address} {index : Nat} {account : Address}
    (hnodup : accounts.Nodup) (h : accounts[index]? = some account) :
    accounts.findIdx? (· == account) = some index := by
  obtain ⟨hlt, heq⟩ := List.getElem?_eq_some_iff.mp h
  rw [List.findIdx?_eq_some_iff_getElem]
  refine ⟨hlt, by rw [heq]; exact BEq.rfl, fun earlier hearlier hsame => ?_⟩
  have hboth : accounts[earlier] = accounts[index] := by rw [heq]; exact eq_of_beq hsame
  have hplaces : earlier = index := (List.getElem_inj hnodup).mp hboth
  omega

theorem Sound.getElem?_accounts {channel : Channel} (h : channel.Sound) (index : Nat) :
    channel.fixed.participants[index]?
      = (channel.participants[index]?).map Participant.address := by
  rw [← h.accounts, List.getElem?_map]

theorem Sound.length_participants {channel : Channel} (h : channel.Sound) :
    channel.participants.length = channel.fixed.participants.length := by
  rw [← h.accounts, List.length_map]

section Entries

variable {channel : Channel} {turn : UInt64} {entry : SignedTurn}

theorem Sound.participants_entry (h : channel.Sound)
    (hentry : channel.signedTurn? turn = some entry) :
    entry.state.participants = channel.fixed.participants := by
  rw [(h.entries turn entry hentry).fixed_eq]

theorem Sound.placed (h : channel.Sound) (hentry : channel.signedTurn? turn = some entry) :
    entry.Placed :=
  (h.entries turn entry hentry).placed h.nodup

theorem Sound.recovers (h : channel.Sound) (hentry : channel.signedTurn? turn = some entry)
    {index : Nat} {sig : Signature} (hsig : entry.signatureOf? index = some sig) :
    ∃ participant, channel.participants[index]? = some participant ∧
      sig.recoverSigner entry.hash = .ok participant.address := by
  obtain ⟨account, hplace, hrecover⟩ := (h.entries turn entry hentry).recovers index sig hsig
  rw [h.getElem?_accounts, Option.map_eq_some_iff] at hplace
  obtain ⟨participant, hparticipant, rfl⟩ := hplace
  exact ⟨participant, hparticipant, hrecover⟩

/-- A turn is complete exactly when every member's own signature over it is there. -/
theorem Sound.isComplete_iff (h : channel.Sound) (hentry : channel.signedTurn? turn = some entry) :
    entry.isComplete = true ↔
      ∀ (index : Nat) (participant : Participant), channel.participants[index]? = some participant →
        ∃ sig, entry.signatureOf? index = some sig ∧
          sig.recoverSigner entry.hash = .ok participant.address := by
  have hlength : entry.slots.length = channel.participants.length := by
    rw [(h.entries turn entry hentry).length_slots, h.length_participants]
  rw [SignedTurn.isComplete_iff_isSome, hlength]
  constructor
  · intro hfilled index participant hplace
    obtain ⟨hlt, -⟩ := List.getElem?_eq_some_iff.mp hplace
    obtain ⟨sig, hsig⟩ := Option.isSome_iff_exists.mp (hfilled index hlt)
    obtain ⟨signer, hsigner, hrecover⟩ := h.recovers hentry hsig
    obtain rfl := Option.some.inj (hsigner.symm.trans hplace)
    exact ⟨sig, hsig, hrecover⟩
  · intro hsigned index hlt
    obtain ⟨sig, hsig, -⟩ := hsigned index _ (List.getElem?_eq_getElem hlt)
    rw [hsig]
    rfl

theorem Sound.getElem?_signatures (h : channel.Sound)
    (hentry : channel.signedTurn? turn = some entry) {index : Nat} {participant : Participant}
    (hplace : channel.participants[index]? = some participant) :
    entry.signatures[participant.address]? = entry.signatureOf? index := by
  refine SignedTurn.getElem?_signatures (h.placed hentry) ?_
  rw [h.participants_entry hentry, h.getElem?_accounts, hplace]
  rfl

theorem Sound.checkSignature (h : channel.Sound) (hentry : channel.signedTurn? turn = some entry)
    {index : Nat} {participant : Participant} {sig : Signature}
    (hplace : channel.participants[index]? = some participant)
    (hsig : entry.signatures[participant.address]? = some sig) :
    channel.checkSignature sig entry.state = .ok index := by
  rw [h.getElem?_signatures hentry hplace] at hsig
  obtain ⟨signer, hsigner, hrecover⟩ := h.recovers hentry hsig
  have hsame : signer = participant := Option.some.inj (hsigner.symm.trans hplace)
  rw [hsame, (h.entries turn entry hentry).hash_eq] at hrecover
  have hindex : channel.fixed.participants.findIdx? (· == participant.address) = some index := by
    refine findIdx?_of_nodup h.nodup ?_
    rw [h.getElem?_accounts, hplace]
    rfl
  unfold Channel.checkSignature
  simp only [hrecover, hindex, Option.elim_some]

theorem Sound.exists_participant_of_mem_signatures (h : channel.Sound)
    (hentry : channel.signedTurn? turn = some entry) {account : Address}
    (hmem : account ∈ entry.signatures) :
    ∃ participant ∈ channel.participants, participant.address = account := by
  have hin := SignedTurn.mem_participants_of_mem_signatures (h.placed hentry) hmem
  rw [h.participants_entry hentry, ← h.accounts] at hin
  exact List.mem_map.mp hin

theorem Sound.isSupported_iff (h : channel.Sound) (turn : UInt64) :
    channel.isSupported turn = true ↔
      ∃ signatures, channel.signaturesFor? turn = some signatures ∧
        signatures.size = channel.participants.length := by
  rw [isSupported_eq_any, signaturesFor?]
  cases hentry : channel.signedTurn? turn with
  | none => simp
  | some entry =>
      rw [Option.any_some, SignedTurn.isComplete_iff_size_signatures (h.placed hentry),
        h.participants_entry hentry, h.length_participants]
      simp

theorem Sound.index_lt_slots (h : channel.Sound) {state : State} {index : Nat} {sig : Signature}
    (hadmits : channel.Admits state index sig) :
    index < (channel.entryFor state).slots.length := by
  rw [(h.entryFor hadmits).length_slots]
  exact hadmits.index_lt

theorem Sound.index_lt (h : channel.Sound) {state : State} {key : PrivateKey} {sig : Signature}
    {index : Nat} (hnone : channel.refusal? state = none)
    (hby : signatureBy state key = .ok (sig, index)) :
    index < (channel.entryFor state).slots.length := by
  have hadmits : channel.Admits state index sig := admits_iff.mpr ⟨hnone, (signatureBy_ok hby).2⟩
  exact h.index_lt_slots hadmits

end Entries

/-! ## The turns on record -/

/-- At any time the turns on record are what they seem. Turns zero and one are there; every turn on
record is a state of the channel with that number under its own hash, with one slot per member, into
which every place found for a signer falls; every filled slot and every entry of the map of
signatures is the signature of its member; and a turn is supported exactly when the map has one
entry per member. -/
theorem signed_turns_sound {channel : Channel} (h : Reachable channel) :
    channel.participants.map Participant.address = channel.fixed.participants ∧
    (channel.signedTurn? 0).isSome ∧ (channel.signedTurn? 1).isSome ∧
    (∀ turn entry, channel.signedTurn? turn = some entry →
      entry.state.turn = turn ∧ entry.state.toFixedPart = channel.fixed ∧
      entry.hash = entry.state.hash ∧ entry.slots.length = channel.participants.length ∧
      (∀ index sig, entry.signatureOf? index = some sig →
        ∃ participant, channel.participants[index]? = some participant ∧
          sig.recoverSigner entry.hash = .ok participant.address) ∧
      channel.signaturesFor? turn = some entry.signatures ∧
      (∀ account ∈ entry.signatures,
        ∃ participant ∈ channel.participants, participant.address = account) ∧
      (∀ index participant sig, channel.participants[index]? = some participant →
        entry.signatures[participant.address]? = some sig →
        channel.checkSignature sig entry.state = .ok index)) ∧
    (∀ state key sig index, channel.refusal? state = none →
      signatureBy state key = .ok (sig, index) →
      index < (channel.entryFor state).slots.length) ∧
    (∀ turn, channel.isSupported turn = true ↔
      ∃ signatures, channel.signaturesFor? turn = some signatures ∧
        signatures.size = channel.participants.length) := by
  have hsound := h.sound
  refine ⟨hsound.accounts, rfl, rfl, fun turn entry hentry => ?_,
    fun state key sig index hnone hby => hsound.index_lt hnone hby, hsound.isSupported_iff⟩
  have hentrySound := hsound.entries turn entry hentry
  refine ⟨hentrySound.turn_eq, hentrySound.fixed_eq, hentrySound.hash_eq, ?_,
    fun index sig hsig => hsound.recovers hentry hsig, ?_,
    fun account hmem => hsound.exists_participant_of_mem_signatures hentry hmem,
    fun index participant sig hplace hsig => hsound.checkSignature hentry hplace hsig⟩
  · rw [hentrySound.length_slots, hsound.length_participants]
  · rw [signaturesFor?, hentry]
    rfl

/-- A proposal with a single member, whose private key is the number one. -/
def soloOpening : Opening :=
  let account : Address := ⟨⟨[0x7e, 0x5f, 0x45, 0x52, 0x09, 0x1a, 0x69, 0x12, 0x5d, 0x5d, 0xfc,
    0xb7, 0xb8, 0xc2, 0x65, 0x90, 0x29, 0x39, 0x5b, 0xdf], rfl⟩⟩
  { participants := [.ofAddress account 0 100]
    contract := ⟨Address.zero, Address.zero⟩
    state := {
      chainId := 1
      participants := [account]
      channelNonce := 7
      appDefinition := Address.zero
      challengeDuration := 60
      appData := []
      outcome := [⟨Address.zero, [], [.simple account.toDestination 100]⟩]
      turn := 0
      isFinal := false } }

/-- The channel of that proposal. -/
def solo : Channel := ofOpening soloOpening 0 .allowOutstanding

theorem create_solo : create soloOpening 0 = .ok solo := rfl

/-- The private key of the member. -/
def soloKey : Bytes := Bytes.zeros 31 ++ [1]

/-- An adjudicator that accepts everything. -/
def accepting : Adjudicator Unit Unit := ⟨1, fun _ _ => .ok 0, fun _ => .ok ()⟩

/-- A proposal with two members, whose private keys are the numbers one and two. -/
def duoOpening : Opening :=
  let other : Address := ⟨⟨[0x2b, 0x5a, 0xd5, 0xc4, 0x79, 0x5c, 0x02, 0x65, 0x14, 0xf8, 0x31, 0x7c,
    0x7a, 0x21, 0x5e, 0x21, 0x8d, 0xcc, 0xd6, 0xcf], rfl⟩⟩
  let accounts := soloOpening.state.participants ++ [other]
  { soloOpening with
    participants := soloOpening.participants ++ [.ofAddress other 1 100]
    state := { soloOpening.state with
      participants := accounts
      outcome := [⟨.zero, [], accounts.map fun account => .simple account.toDestination 100⟩] } }

def duo : Channel := ofOpening duoOpening 0 .allowOutstanding

/-- The final state that one of the two members signs, as turn two. -/
def duoFinal : State := { duoOpening.state with turn := 2, isFinal := true }

/-- The first of the two members signs the final state. -/
def halfSigned : Step Unit Unit :=
  duo.step accepting (.signState ⟨duoFinal, .empty⟩ soloKey)

theorem reachable_halfSigned : Reachable halfSigned.after :=
  .step accepting _ (@Reachable.create duoOpening 0 {} _ rfl)

theorem halfSigned_slots :
    halfSigned.after.lastState = duoFinal ∧ halfSigned.after.participants.length = 2 ∧
    ∃ entry sig, halfSigned.after.signedTurn? 2 = some entry ∧ entry.slots = [some sig, none] := by
  have hfilled : halfSigned.after.lastState = duoFinal ∧ halfSigned.after.participants.length = 2 ∧
      (halfSigned.after.signedTurn? 2).map (·.slots.map Option.isSome) = some [true, false] := by
    decide +kernel
  obtain ⟨hlast, hcount, hslots⟩ := hfilled
  obtain ⟨entry, hentry, hslots⟩ := Option.map_eq_some_iff.mp hslots
  obtain ⟨first, rest, hslots, hfirst, hrest⟩ := List.map_eq_cons_iff.mp hslots
  obtain ⟨sig, rfl⟩ := Option.isSome_iff_exists.mp hfirst
  obtain ⟨second, beyond, rfl, hsecond, hbeyond⟩ := List.map_eq_cons_iff.mp hrest
  obtain rfl := Option.isNone_iff_eq_none.mp (Option.isSome_eq_false_iff.mp hsecond)
  obtain rfl := List.map_eq_nil_iff.mp hbeyond
  exact ⟨hlast, hcount, entry, sig, hentry, hslots⟩

/-- Turn two is half signed. The first slot holds a signature of the first member, and the channel
finds that member again by it; the second one is empty, and so the turn is not supported, with less
than one signature per member. -/
theorem halfSigned_turns_sound :
    Reachable halfSigned.after ∧ halfSigned.after.participants.length = 2 ∧
    ∃ entry sig participant,
      halfSigned.after.signedTurn? 2 = some entry ∧ entry.slots = [some sig, none] ∧
      halfSigned.after.participants[0]? = some participant ∧
      sig.recoverSigner entry.state.hash = .ok participant.address ∧
      entry.signatures[participant.address]? = some sig ∧
      halfSigned.after.checkSignature sig entry.state = .ok 0 ∧
      halfSigned.after.signaturesFor? 2 = some entry.signatures ∧ entry.signatures.size ≠ 2 ∧
      halfSigned.after.isSupported 2 = false := by
  obtain ⟨-, hcount, entry, sig, hentry, hslots⟩ := halfSigned_slots
  obtain ⟨-, -, -, hentries, -, hsupported⟩ := signed_turns_sound reachable_halfSigned
  obtain ⟨-, -, hhash, -, hrecovers, hmap, -, hcheck⟩ := hentries 2 entry hentry
  have hslot : entry.signatureOf? 0 = some sig := by
    rw [SignedTurn.signatureOf?, hslots]
    rfl
  obtain ⟨participant, hplace, hrecover⟩ := hrecovers 0 sig hslot
  have hunsupported : halfSigned.after.isSupported 2 = false := by
    rw [isSupported_eq_any, hentry, Option.any_some, SignedTurn.isComplete, hslots]
    rfl
  have hmapped : entry.signatures[participant.address]? = some sig :=
    (reachable_halfSigned.sound.getElem?_signatures hentry hplace).trans hslot
  refine ⟨reachable_halfSigned, hcount, entry, sig, participant, hentry, hslots, hplace, ?_,
    hmapped, hcheck 0 participant sig hplace hmapped, hmap, fun hsize => ?_, hunsupported⟩
  · rw [← hhash]
    exact hrecover
  · have hall := (hsupported 2).mpr ⟨entry.signatures, hmap, hsize.trans hcount.symm⟩
    rw [hunsupported] at hall
    cases hall

end Channel

end DebtChannel
