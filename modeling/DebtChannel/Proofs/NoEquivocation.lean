import DebtChannel.Proofs.ChannelSound

/-!
# No turn is signed for two states, and nothing on record is lost

Whoever signs two states of one turn gives the other participants the choice between them, and
whoever loses a signature gives away the proof of what was agreed. A run of a channel does neither,
in whatever order its operations come and however many of them fail.

The argument has two halves. `Keeps` orders channels by what is on record: a later channel has every
turn of the earlier one with its state and hash, every filled slot filled, every supported turn
supported and a latest supported turn that is no lower. Every step keeps, because all it can do to
the record is to put one signature there (`Effect.turns_cases`), and the order is transitive, so it
holds between any two moments of a run. The other half is about signing: a state is admitted only if
it agrees with what is on record for its turn, and when it has been signed it is on record. So a
state signed later agrees with one signed earlier through the entry that both agree with.

No hypothesis about hashes is needed; two states that are signed for one turn have one hash, which
is all that a signature speaks of.
-/

namespace DebtChannel.Channel

variable {ρ ε : Type}

/-- What the earlier channel has on record is still on record in the later one. -/
structure Keeps (earlier later : Channel) : Prop where
  entries : ∀ turn entry, earlier.signedTurn? turn = some entry →
    ∃ kept, later.signedTurn? turn = some kept ∧ kept.state = entry.state ∧
      kept.hash = entry.hash ∧
      ∀ index, (entry.signatureOf? index).isSome → (kept.signatureOf? index).isSome
  supported : ∀ turn, earlier.isSupported turn = true → later.isSupported turn = true
  latest : ∀ turn, earlier.latestSupported = some turn →
    ∃ higher, later.latestSupported = some higher ∧ turn ≤ higher

theorem Keeps.refl (channel : Channel) : Keeps channel channel where
  entries _ entry h := ⟨entry, h, rfl, rfl, fun _ h => h⟩
  supported _ h := h
  latest turn h := ⟨turn, h, UInt64.le_refl turn⟩

theorem Keeps.trans {a b c : Channel} (hab : Keeps a b) (hbc : Keeps b c) : Keeps a c where
  entries turn entry h := by
    obtain ⟨kept, hkept, hstate, hhash, hslots⟩ := hab.entries turn entry h
    obtain ⟨last, hlast, hstate', hhash', hslots'⟩ := hbc.entries turn kept hkept
    exact ⟨last, hlast, hstate'.trans hstate, hhash'.trans hhash,
      fun index hindex => hslots' index (hslots index hindex)⟩
  supported turn h := hbc.supported turn (hab.supported turn h)
  latest turn h := by
    obtain ⟨higher, hhigher, hle⟩ := hab.latest turn h
    obtain ⟨highest, hhighest, hle'⟩ := hbc.latest higher hhigher
    exact ⟨highest, hhighest, UInt64.le_trans hle hle'⟩

theorem Keeps.preFund {earlier later : Channel} (h : Keeps earlier later) :
    later.turns.preFund.state = earlier.turns.preFund.state ∧
      later.turns.preFund.hash = earlier.turns.preFund.hash := by
  obtain ⟨kept, hkept, hstate, hhash, -⟩ := h.entries 0 earlier.turns.preFund rfl
  obtain rfl := Option.some.inj hkept
  exact ⟨hstate, hhash⟩

theorem Keeps.postFund {earlier later : Channel} (h : Keeps earlier later) :
    later.turns.postFund.state = earlier.turns.postFund.state ∧
      later.turns.postFund.hash = earlier.turns.postFund.hash := by
  obtain ⟨kept, hkept, hstate, hhash, -⟩ := h.entries 1 earlier.turns.postFund rfl
  obtain rfl := Option.some.inj hkept
  exact ⟨hstate, hhash⟩

/-- A turn that somebody signed stays signed by somebody. -/
theorem Keeps.hasSignatures {earlier later : Channel} (h : Keeps earlier later) (turn : UInt64)
    {entry kept : SignedTurn} (hentry : earlier.signedTurn? turn = some entry)
    (hkept : later.signedTurn? turn = some kept) (hsigned : entry.hasSignatures = true) :
    kept.hasSignatures = true := by
  obtain ⟨found, hfound, -, -, hslots⟩ := h.entries turn entry hentry
  obtain rfl := Option.some.inj (hfound.symm.trans hkept)
  obtain ⟨index, hindex⟩ := SignedTurn.hasSignatures_iff_isSome.mp hsigned
  exact SignedTurn.hasSignatures_iff_isSome.mpr ⟨index, hslots index hindex⟩

theorem keeps_record (channel : Channel) (state : State) (index : Nat) (sig : Signature) :
    Keeps channel (channel.record state index sig) where
  entries turn entry hentry := by
    rw [signedTurn?_record]
    split
    · next hturn =>
        subst hturn
        rw [entryFor_of_signedTurn? hentry]
        exact ⟨_, rfl, rfl, rfl, fun _ h => SignedTurn.isSome_signatureOf?_addSignature h⟩
    · exact ⟨entry, hentry, rfl, rfl, fun _ h => h⟩
  supported turn hsupported := by
    rw [isSupported_record]
    split
    · next hturn =>
        subst hturn
        obtain ⟨entry, hentry, hcomplete⟩ := Option.any_eq_true _ _ |>.mp hsupported
        rw [entryFor_of_signedTurn? hentry]
        exact SignedTurn.isComplete_addSignature hcomplete
    · exact hsupported
  latest turn hlatest := by
    rw [latestSupported_record]
    split
    · next hcomplete =>
        -- The turn just signed is above every latest turn there was.
        rw [Bool.and_eq_true, hlatest, Option.all_some, decide_eq_true_eq] at hcomplete
        exact ⟨state.turn, rfl, UInt64.le_of_lt hcomplete.2⟩
    · exact ⟨turn, hlatest, UInt64.le_refl turn⟩

/-- The order looks at the turns on record and at the latest supported one only. -/
theorem Keeps.of_eq {earlier later other : Channel} (h : Keeps earlier later)
    (hturns : other.turns = later.turns) (hlatest : other.latestSupported = later.latestSupported) :
    Keeps earlier other where
  entries := by unfold signedTurn? at *; rw [hturns]; exact h.entries
  supported := by unfold isSupported at *; rw [hturns]; exact h.supported
  latest := by rw [hlatest]; exact h.latest

theorem Effect.keeps {channel after : Channel} {answer : Answer ρ ε}
    (h : Effect channel answer after) : Keeps channel after := by
  rcases h.turns_cases with
    ⟨hturns, hlatest, -⟩ | ⟨state, index, sig, -, -, hturns, hlatest⟩
  · exact (Keeps.refl channel).of_eq hturns hlatest
  · exact (keeps_record channel state index sig).of_eq hturns hlatest

theorem keeps_step (channel : Channel) (adjudicator : Adjudicator ρ ε) (operation : Operation) :
    Keeps channel (channel.step adjudicator operation).after :=
  (channel.step_effect adjudicator operation).keeps

theorem keeps_of_mem_run {channel : Channel} {operations : List (Adjudicator ρ ε × Operation)}
    {step : Step ρ ε} (hmem : step ∈ channel.run operations) :
    Keeps channel step.before ∧ Keeps channel step.after := by
  obtain ⟨hbefore, adjudicator, operation, hstep⟩ :=
    forall_mem_run (P := Keeps channel)
      (fun c adjudicator operation h => h.trans (keeps_step c adjudicator operation))
      (Keeps.refl channel) step hmem
  refine ⟨hbefore, ?_⟩
  rw [hstep]
  exact hbefore.trans (keeps_step step.before adjudicator operation)

theorem keeps_afterAll_of_mem_run :
    ∀ {operations : List (Adjudicator ρ ε × Operation)} {channel : Channel} {step : Step ρ ε},
      step ∈ channel.run operations →
      Keeps step.after (channel.afterAll (channel.run operations)) := by
  intro operations
  induction operations with
  | nil => intro channel step hmem; exact absurd hmem List.not_mem_nil
  | cons first rest ih =>
      obtain ⟨adjudicator, operation⟩ := first
      intro channel step hmem
      rw [run_cons] at hmem ⊢
      rw [afterAll_cons]
      rcases List.mem_cons.mp hmem with rfl | hrest
      · exact afterAll_of_forall (Keeps.refl _) fun _ hlast => (keeps_of_mem_run hlast).2
      · exact ih hrest

theorem pairwise_keeps_run (operations : List (Adjudicator ρ ε × Operation)) (channel : Channel) :
    (channel :: (channel.run operations).map Step.after).Pairwise Keeps := by
  refine List.pairwise_cons.mpr ⟨fun later hlater => ?_, List.pairwise_map.mpr ?_⟩
  · obtain ⟨step, hmem, rfl⟩ := List.mem_map.mp hlater
    exact (keeps_of_mem_run hmem).2
  · exact pairwise_run fun _ _ _ _ hlater => (keeps_of_mem_run hlater).2

/-! ## One hash per turn -/

theorem hash_eq_of_signed {channel : Channel} {adjudicator : Adjudicator ρ ε}
    {operation : Operation} {state : State} {sig : Signature}
    (hsigned : (channel.step adjudicator operation).answer = .signed state sig)
    {entry : SignedTurn} (hentry : channel.signedTurn? state.turn = some entry) :
    entry.hash = state.hash := by
  obtain ⟨index, hadmits, -⟩ := exists_admits_of_signed hsigned
  exact hadmits.agrees entry hentry

/-- A signature that is admitted is on record from then on, for a state with the signed hash. -/
theorem Sound.recorded {channel : Channel} {state : State} {index : Nat} {sig : Signature}
    (h : channel.Sound) (hadmits : channel.Admits state index sig) :
    ∃ entry, (channel.record state index sig).signedTurn? state.turn = some entry ∧
      entry.hash = state.hash ∧ entry.signatureOf? index = some sig := by
  refine ⟨(channel.entryFor state).addSignature index sig, ?_, hadmits.entryFor_hash, ?_⟩
  · rw [signedTurn?_record, if_pos rfl]
  · rw [SignedTurn.signatureOf?_addSignature (h.index_lt_slots hadmits), if_pos rfl]

theorem recorded_of_signed {channel : Channel} {adjudicator : Adjudicator ρ ε}
    {operation : Operation} {state : State} {sig : Signature} (hsound : channel.Sound)
    (hsigned : (channel.step adjudicator operation).answer = .signed state sig) :
    ∃ entry index,
      (channel.step adjudicator operation).after.signedTurn? state.turn = some entry ∧
      entry.hash = state.hash ∧ entry.signatureOf? index = some sig := by
  obtain ⟨index, hadmits, hturns⟩ := exists_admits_of_signed hsigned
  obtain ⟨entry, hentry, hhash, hslot⟩ := hsound.recorded hadmits
  refine ⟨entry, index, ?_, hhash, hslot⟩
  rw [signedTurn?, hturns]
  exact hentry

/-- What two steps that sign states of one turn must have in common. -/
def SignAlike (first second : Step ρ ε) : Prop :=
  ∀ a sigA b sigB, first.answer = .signed a sigA → second.answer = .signed b sigB →
    a.turn = b.turn → a.hash = b.hash

theorem pairwise_signAlike_run (operations : List (Adjudicator ρ ε × Operation))
    {channel : Channel} (hsound : channel.Sound) :
    (channel.run operations).Pairwise SignAlike := by
  refine pairwise_run fun first hfirst rest second hsecond a sigA b sigB ha hb hturn => ?_
  obtain ⟨hbefore, adjudicator, operation, hstep⟩ :=
    forall_mem_run (P := Sound) (fun _ _ _ hc => sound_step hc _ _) hsound first hfirst
  -- The entry that the first signature left is still there when the second is made.
  rw [hstep] at ha hsecond
  obtain ⟨entry, -, hentry, hhash, -⟩ := recorded_of_signed hbefore ha
  obtain ⟨kept, hkept, -, hkeptHash, -⟩ := (keeps_of_mem_run hsecond).1.entries a.turn entry hentry
  obtain ⟨adjudicator', operation', hstep'⟩ := eq_step_of_mem_run hsecond
  rw [hstep'] at hb
  rw [hturn] at hkept
  rw [← hhash, ← hkeptHash, hash_eq_of_signed hb hkept]

theorem signAlike_of_mem_run {channel : Channel} (hsound : channel.Sound)
    {operations : List (Adjudicator ρ ε × Operation)} {first second : Step ρ ε}
    (hfirst : first ∈ channel.run operations) (hsecond : second ∈ channel.run operations) :
    SignAlike first second := by
  have hpairs := pairwise_signAlike_run operations hsound
  have hflipped : (channel.run operations).Pairwise (flip SignAlike) :=
    hpairs.imp fun hab b sigB a sigA hb ha hturn => (hab a sigA b sigB ha hb hturn.symm).symm
  refine List.Pairwise.forall_of_forall_of_flip (R := SignAlike) ?_ hpairs hflipped hfirst hsecond
  intro step _ a sigA b sigB ha hb _
  obtain ⟨rfl, -⟩ := Answer.signed.inj (ha.symm.trans hb)
  rfl

/-! ## Nothing outdated -/

/-- Nothing is put on record, or signed, below the latest supported turn. -/
theorem frozen_step {channel : Channel} (adjudicator : Adjudicator ρ ε) (operation : Operation)
    {latest : UInt64} (hlatest : channel.latestSupported = some latest) :
    (∀ turn, turn < latest →
      (channel.step adjudicator operation).after.signedTurn? turn = channel.signedTurn? turn) ∧
    (∀ state sig, (channel.step adjudicator operation).answer = .signed state sig →
      latest ≤ state.turn) := by
  refine ⟨fun turn hlt => ?_, fun state sig hsigned => ?_⟩
  · rcases (channel.step_effect adjudicator operation).turns_cases with
      ⟨hturns, -, -⟩ | ⟨signed, index, made, -, hadmits, hturns, -⟩
    · rw [signedTurn?, hturns, signedTurn?]
    · have hne : signed.turn ≠ turn := by
        intro heq
        exact UInt64.not_le.mpr hlt (heq ▸ hadmits.fresh latest hlatest)
      rw [signedTurn?, hturns]
      exact signedTurn?_record.trans (if_neg hne)
  · obtain ⟨index, hadmits, -⟩ := exists_admits_of_signed hsigned
    exact hadmits.fresh latest hlatest

/-! ## Whole runs -/

/-- No run of a channel equivocates or loses anything. Any two states that were signed for one turn
have the same hash, and the signature that was given out is on record under it; a turn on record
keeps its state and its hash, a filled slot stays filled, a supported turn stays supported, and the
latest supported turn never falls; and nothing is put on record, nor signed, below the latest
supported turn. -/
theorem run_never_equivocates {opening : Opening} {partIndex : UInt64} {config : Config}
    {channel : Channel} (h : create opening partIndex config = .ok channel)
    (operations : List (Adjudicator ρ ε × Operation)) :
    (∀ first ∈ channel.run operations, ∀ second ∈ channel.run operations, ∀ a sigA b sigB,
      first.answer = .signed a sigA → second.answer = .signed b sigB →
      a.turn = b.turn → a.hash = b.hash) ∧
    (∀ step ∈ channel.run operations, ∀ state sig, step.answer = .signed state sig →
      ∃ entry index, step.after.signedTurn? state.turn = some entry ∧
        entry.hash = state.hash ∧ entry.signatureOf? index = some sig) ∧
    (channel :: (channel.run operations).map Step.after).Pairwise Keeps ∧
    (∀ step ∈ channel.run operations, ∀ latest, step.before.latestSupported = some latest →
      (∀ turn, turn < latest → step.after.signedTurn? turn = step.before.signedTurn? turn) ∧
      (∀ state sig, step.answer = .signed state sig → latest ≤ state.turn)) := by
  have hsound := sound_create h
  refine ⟨fun first hfirst second hsecond => signAlike_of_mem_run hsound hfirst hsecond, ?_,
    pairwise_keeps_run operations channel, ?_⟩
  · intro step hmem state sig hsigned
    obtain ⟨hbefore, adjudicator, operation, hstep⟩ :=
      forall_mem_run (P := Sound) (fun _ _ _ hc => sound_step hc _ _) hsound step hmem
    rw [hstep] at hsigned ⊢
    exact recorded_of_signed hbefore hsigned
  · intro step hmem latest hlatest
    obtain ⟨adjudicator, operation, hstep⟩ := eq_step_of_mem_run hmem
    have hfrozen := frozen_step adjudicator operation hlatest
    rw [← hstep] at hfrozen
    exact hfrozen

/-- Why the operation came to nothing, if it did. -/
def Answer.failure? : Answer ρ ε → Option (Failure ε)
  | .failed cause => some cause
  | _ => none

theorem Answer.eq_failed_of_failure? {answer : Answer ρ ε} {cause : Failure ε}
    (h : answer.failure? = some cause) : answer = .failed cause := by
  cases answer with
  | failed other =>
      obtain rfl := Option.some.inj h
      rfl
  | _ => cases h

theorem exists_signed_of_failure?_eq_none {channel : Channel} {adjudicator : Adjudicator ρ ε}
    {draft : Draft} {key : Bytes}
    (h : (channel.step adjudicator (.signState draft key)).answer.failure? = none) :
    ∃ sig, (channel.step adjudicator (.signState draft key)).answer = .signed draft.state sig := by
  rw [step_signState] at h ⊢
  cases hmade : (signAsLast draft.state key).outcome channel with
  | error cause => rw [hmade] at h; cases h
  | ok made => exact ⟨made.1, rfl⟩

/-- A draft that one channel signs is signed by every channel that does not refuse it. -/
theorem exists_step_signState_eq {channel other : Channel} {adjudicator : Adjudicator ρ ε}
    {draft : Draft} {key : Bytes}
    (h : (channel.step adjudicator (.signState draft key)).answer.failure? = none)
    (hnone : other.refusal? draft.state = none) (asked : Adjudicator ρ ε) :
    ∃ index sig, other.step asked (.signState draft key)
      = ⟨other, .signState draft key, .signed draft.state sig, [],
          (other.record draft.state index sig).advance draft.state⟩ := by
  cases hsign : (sign draft.state key).outcome channel with
  | error cause =>
      rw [step_signState_of_error adjudicator hsign] at h
      cases h
  | ok made =>
      obtain ⟨index, hother⟩ := sign_of_sign hsign hnone
      exact ⟨index, made.1, step_signState_of_ok asked hother⟩

theorem exists_proposed_of_failure?_eq_none {channel : Channel} {adjudicator : Adjudicator ρ ε}
    (h : (channel.step adjudicator .proposeState).answer.failure? = none) :
    ∃ draft, (channel.step adjudicator .proposeState).answer = .proposed draft := by
  rw [step_proposeState] at h ⊢
  cases hmade : proposeState.outcome channel with
  | error cause => rw [hmade] at h; cases h
  | ok made => exact ⟨made.1, rfl⟩

/-- The member of the solo channel signs a final state, then another state of the same turn, and
settles the channel twice. -/
def soloRun : List (Step Unit Unit) :=
  let state := { soloOpening.state with turn := 5, isFinal := true }
  solo.run [(accepting, .signState ⟨state, ⟨∅⟩⟩ soloKey),
    (accepting, .signState ⟨{ state with appData := [1] }, ⟨∅⟩⟩ soloKey),
    (accepting, .conclude 0 soloKey ∅ none), (accepting, .conclude 0 soloKey ∅ none)]

theorem failures_soloRun : soloRun.map (·.answer.failure?)
    = [none, some (.sign (.conflictingState 5)), none, some (.conclude .alreadyConcluded)] := by
  decide +kernel

theorem soloRun_never_equivocates :
    soloRun.map (·.answer.failure?)
      = [none, some (.sign (.conflictingState 5)), none, some (.conclude .alreadyConcluded)] ∧
    (∀ first ∈ soloRun, ∀ second ∈ soloRun, ∀ a sigA b sigB,
      first.answer = .signed a sigA → second.answer = .signed b sigB →
      a.turn = b.turn → a.hash = b.hash) :=
  ⟨failures_soloRun, (run_never_equivocates create_solo _).1⟩

end DebtChannel.Channel
