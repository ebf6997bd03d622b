import DebtChannel.Proofs.NoEquivocation

/-!
# A channel is settled once, and by nothing outdated

Of the last state, settling asks one thing only: that it is final. Whether anyone signed it and
whether everyone moved on since is never asked, and the last state is no record: proposing replaces
it by a draft that nobody has signed, and signing an older draft moves it back. What makes settling
safe is the invariant `Ordered`, a chain of turns: every supported turn is at most the latest
supported one, which is at most that of the last state, which is at most the last turn handed out.

Each operation keeps the chain for its own reason. A signed state becomes the last one only if it is
not below the latest supported turn, and that is also the highest that the latest supported turn can
become by it. A proposal takes the turn after the last one handed out, so it is above everything
below; and it is made from a state that is not final, so a final last state has come from a
signature, which is still on record. The state before funding is signed without becoming the last
one, but nothing is below turn zero.
-/

namespace DebtChannel.Channel

variable {ρ ε : Type}

/-- The chain of turns from the supported ones to the last one handed out, and where a final state
comes from. -/
structure Ordered (channel : Channel) : Prop where
  supported_le : ∀ turn, channel.isSupported turn = true →
    ∃ latest, channel.latestSupported = some latest ∧ turn ≤ latest
  latest_le : ∀ latest, channel.latestSupported = some latest → latest ≤ channel.lastState.turn
  lastState_le : channel.lastState.turn ≤ channel.lastTurn
  final : channel.lastState.isFinal = true →
    ∃ entry, channel.signedTurn? channel.lastState.turn = some entry ∧
      entry.hash = channel.lastState.hash ∧ ∃ index sig, entry.signatureOf? index = some sig

theorem Ordered.supported_le_lastState {channel : Channel} (h : channel.Ordered) {turn : UInt64}
    (hsupported : channel.isSupported turn = true) : turn ≤ channel.lastState.turn := by
  obtain ⟨latest, hlatest, hle⟩ := h.supported_le turn hsupported
  exact UInt64.le_trans hle (h.latest_le latest hlatest)

/-! ## How the chain begins -/

/-- Of the two turns that are there from the start none is signed, and no other is there. -/
theorem isSupported_ofOpening {opening : Opening} (partIndex : UInt64) (policy : ProposalPolicy)
    (h : opening.state.participants ≠ []) (turn : UInt64) :
    (ofOpening opening partIndex policy).isSupported turn = false := by
  show ((SignedTurns.ofState opening.state).get? turn).any SignedTurn.isComplete = false
  unfold SignedTurns.get? SignedTurns.ofState
  split
  · exact SignedTurn.isComplete_ofState opening.state h
  · split
    · exact SignedTurn.isComplete_ofState { opening.state with turn := 1 } h
    · rw [Std.ExtTreeMap.getElem?_empty]
      rfl

theorem ordered_create {opening : Opening} {partIndex : UInt64} {config : Config}
    {channel : Channel} (h : create opening partIndex config = .ok channel) : channel.Ordered := by
  obtain ⟨hnone, -, rfl⟩ := create_ok h
  obtain ⟨hturn, hfinal, hdefect, -⟩ := initialDefect?_eq_none hnone
  obtain ⟨hsome, -, -, -⟩ := State.defect?_eq_none_iff.mp hdefect
  refine ⟨fun turn hsupported => ?_, fun latest hlatest => ?_, ?_, fun hlast => ?_⟩
  · rw [isSupported_ofOpening partIndex config.proposalPolicy hsome] at hsupported
    cases hsupported
  · cases hlatest
  · show opening.state.turn ≤ 0
    rw [hturn]
    exact UInt64.le_refl 0
  · exact absurd (hlast.symm.trans hfinal) (by decide)

/-! ## One step -/

/-- A signature makes a turn supported only together with the latest supported one. -/
theorem Ordered.supported_le_record {channel : Channel} (h : channel.Ordered) {state : State}
    {index : Nat} {sig : Signature} {turn : UInt64}
    (hsupported : (channel.record state index sig).isSupported turn = true) :
    ∃ latest, (channel.record state index sig).latestSupported = some latest ∧ turn ≤ latest := by
  rw [isSupported_record] at hsupported
  rw [latestSupported_record]
  split at hsupported
  · next hturn =>
      subst hturn
      cases hlatest : channel.latestSupported with
      | none =>
          rw [hsupported]
          exact ⟨state.turn, rfl, UInt64.le_refl _⟩
      | some latest =>
          rw [hsupported, Option.all_some, Bool.true_and]
          split
          · exact ⟨state.turn, rfl, UInt64.le_refl _⟩
          · next hnlt =>
              rw [decide_eq_true_eq] at hnlt
              exact ⟨latest, rfl, UInt64.not_lt.mp hnlt⟩
  · obtain ⟨latest, hlatest, hle⟩ := h.supported_le turn hsupported
    split
    · next hcomplete =>
        rw [Bool.and_eq_true, hlatest, Option.all_some, decide_eq_true_eq] at hcomplete
        exact ⟨state.turn, rfl, UInt64.le_trans hle (UInt64.le_of_lt hcomplete.2)⟩
    · exact ⟨latest, hlatest, hle⟩

/-- The latest supported turn is the one it was or that of the signed state. -/
theorem latestSupported_record_cases {channel : Channel} {state : State} {index : Nat}
    {sig : Signature} {latest : UInt64}
    (h : (channel.record state index sig).latestSupported = some latest) :
    latest = state.turn ∨ channel.latestSupported = some latest := by
  rw [latestSupported_record] at h
  split at h
  · exact .inl (Option.some.inj h).symm
  · exact .inr h

/-- The state before funding is signed and the last state stays what it is. -/
theorem Ordered.record {channel : Channel} (h : channel.Ordered) {state : State} {index : Nat}
    {sig : Signature} (hturn : state.turn = 0) : (channel.record state index sig).Ordered where
  supported_le _ := h.supported_le_record
  latest_le latest hlatest := by
    rcases latestSupported_record_cases hlatest with rfl | hold
    · rw [hturn]
      exact UInt64.zero_le
    · exact h.latest_le latest hold
  lastState_le := h.lastState_le
  final hfinal := by
    obtain ⟨entry, hentry, hhash, slot, made, hslot⟩ := h.final hfinal
    obtain ⟨kept, hkept, -, hkeptHash, hslots⟩ :=
      (keeps_record channel state index sig).entries _ entry hentry
    have hfilled : (kept.signatureOf? slot).isSome := hslots slot (by rw [hslot]; rfl)
    exact ⟨kept, hkept, hkeptHash.trans hhash, slot, Option.isSome_iff_exists.mp hfilled⟩

/-- A state is signed and becomes the last one. -/
theorem Ordered.record_advance {channel : Channel} (h : channel.Ordered) (hsound : channel.Sound)
    {state : State} {index : Nat} {sig : Signature} (hadmits : channel.Admits state index sig) :
    ((channel.record state index sig).advance state).Ordered where
  supported_le turn hsupported := by
    rw [latestSupported_advance]
    rw [isSupported_advance] at hsupported
    exact h.supported_le_record hsupported
  latest_le latest hlatest := by
    rw [lastState_advance]
    rw [latestSupported_advance] at hlatest
    rcases latestSupported_record_cases hlatest with rfl | hold
    · exact UInt64.le_refl _
    · exact hadmits.fresh latest hold
  lastState_le := by
    rw [lastState_advance, lastTurn_advance]
    split
    · next hsame =>
        rw [hsame]
        exact h.lastState_le
    · rw [UInt64.le_iff_toNat_le, toNat_max]
      exact Nat.le_max_right _ _
  final _ := by
    rw [lastState_advance, signedTurn?_advance]
    obtain ⟨entry, hentry, hhash, hslot⟩ := hsound.recorded hadmits
    exact ⟨entry, hentry, hhash, index, sig, hslot⟩

/-- The turn after the last one handed out is above everything on record. -/
theorem Ordered.propose {channel : Channel} (h : channel.Ordered) {draft : Draft}
    (hproposes : channel.Proposes draft) :
    Ordered { channel with lastState := draft.state, lastTurn := channel.lastTurn + 1 } := by
  have hnext := hproposes.toNat_next
  rw [hproposes.state_eq]
  refine ⟨h.supported_le, fun latest hlatest => ?_, UInt64.le_refl _, fun hfinal => ?_⟩
  · have hlast : latest ≤ channel.lastTurn :=
      UInt64.le_trans (h.latest_le latest hlatest) h.lastState_le
    rw [UInt64.le_iff_toNat_le] at hlast
    show latest ≤ channel.lastTurn + 1
    rw [UInt64.le_iff_toNat_le]
    omega
  · exact absurd (hfinal.symm.trans hproposes.notFinal) (by decide)

theorem Effect.ordered {channel after : Channel} {answer : Answer ρ ε}
    (heffect : Effect channel answer after) (hsound : channel.Sound) (h : channel.Ordered) :
    after.Ordered := by
  cases heffect with
  | failed cause => exact h
  | approved index sig hadmits => exact h.record (hsound.entries 0 _ rfl).turn_eq
  | signed state index sig hadmits => exact h.record_advance hsound hadmits
  | proposed draft hproposes => exact h.propose hproposes
  | deposited receipt hcomplete => exact ⟨h.supported_le, h.latest_le, h.lastState_le, h.final⟩
  | settled receipt hconcluded hfinal =>
      exact ⟨h.supported_le, h.latest_le, h.lastState_le, h.final⟩

/-! ## Once -/

/-- Whether the channel was settled by the operation. -/
def Answer.isSettled : Answer ρ ε → Bool
  | .settled _ => true
  | _ => false

/-- A channel has been settled exactly when an operation has done it, and never by another one
after that. -/
theorem Effect.concluded {channel after : Channel} {answer : Answer ρ ε}
    (h : Effect channel answer after) :
    after.concluded = (channel.concluded || answer.isSettled) ∧
      (answer.isSettled = true → channel.concluded = false) := by
  cases h with
  | failed cause => exact ⟨(Bool.or_false _).symm, nofun⟩
  | approved index sig hadmits => exact ⟨(Bool.or_false _).symm, nofun⟩
  | signed state index sig hadmits =>
      exact ⟨(concluded_advance _ state).trans (Bool.or_false _).symm, nofun⟩
  | proposed draft hproposes => exact ⟨(Bool.or_false _).symm, nofun⟩
  | deposited receipt hcomplete => exact ⟨(Bool.or_false _).symm, nofun⟩
  | settled receipt hconcluded hfinal => exact ⟨(Bool.or_true _).symm, fun _ => hconcluded⟩

/-- A run settles an open channel at most once, and one that has been settled not again. -/
theorem countP_isSettled_run :
    ∀ (operations : List (Adjudicator ρ ε × Operation)) (channel : Channel),
      (channel.run operations).countP (·.answer.isSettled) + channel.concluded.toNat ≤ 1 := by
  intro operations
  induction operations with
  | nil =>
      intro channel
      rw [run, List.countP_nil, Nat.zero_add]
      exact Bool.toNat_le _
  | cons first operations ih =>
      obtain ⟨adjudicator, operation⟩ := first
      intro channel
      have hrest := ih (channel.step adjudicator operation).after
      obtain ⟨hafter, honce⟩ := (channel.step_effect adjudicator operation).concluded
      rw [run_cons, List.countP_cons]
      rw [hafter] at hrest
      cases hsettled : (channel.step adjudicator operation).answer.isSettled with
      | false =>
          rw [hsettled, Bool.or_false] at hrest
          exact hrest
      | true =>
          rw [hsettled, Bool.or_true] at hrest
          rw [honce hsettled]
          exact hrest

/-! ## What is handed in -/

theorem ordered_of_mem_run {channel : Channel} (hsound : channel.Sound) (hordered : channel.Ordered)
    {operations : List (Adjudicator ρ ε × Operation)} {step : Step ρ ε}
    (hmem : step ∈ channel.run operations) :
    step.before.Sound ∧ step.before.Ordered ∧
      ∃ adjudicator operation, step = step.before.step adjudicator operation := by
  obtain ⟨⟨hsound, hordered⟩, hstep⟩ :=
    forall_mem_run (P := fun channel => channel.Sound ∧ channel.Ordered)
      (fun _ _ _ h => ⟨sound_step h.1 _ _, (step_effect _ _ _).ordered h.1 h.2⟩)
      ⟨hsound, hordered⟩ step hmem
  exact ⟨hsound, hordered, hstep⟩

/-- No run settles its channel twice, and whatever it hands in to settle it, be it accepted or not,
is sent by the participant it names with that participant's own key, and is the settlement by the
last state of that moment. That state is then final, it is on record under its hash with the
signature of at least one participant, and no supported turn is above it. -/
theorem run_settles_once_by_last_state {opening : Opening} {partIndex : UInt64} {config : Config}
    {channel : Channel} (h : create opening partIndex config = .ok channel)
    (operations : List (Adjudicator ρ ε × Operation)) :
    (channel.run operations).countP (·.answer.isSettled) ≤ 1 ∧
    (∀ step ∈ channel.run operations, ∀ terms settlement,
      Call.conclude terms settlement ∈ step.calls →
      (∃ index key signatures gas participant,
        step.operation = .conclude index key signatures gas ∧
        step.before.participants[index.toNat]? = some participant ∧
        PrivateKey.ofBytes key = .ok terms.signer.key ∧
        terms.signer.address = participant.address ∧ terms.sender = participant.address ∧
        Settlement.ofState step.before.lastState signatures = .ok settlement) ∧
      step.before.lastState.isFinal = true ∧
      (∃ entry, step.before.signedTurn? step.before.lastState.turn = some entry ∧
        entry.hash = step.before.lastState.hash ∧
        ∃ index sig participant, entry.signatureOf? index = some sig ∧
          step.before.participants[index]? = some participant ∧
          sig.recoverSigner step.before.lastState.hash = .ok participant.address) ∧
      (∀ turn, step.before.isSupported turn = true → turn ≤ step.before.lastState.turn)) := by
  refine ⟨Nat.le_of_add_right_le (countP_isSettled_run operations channel), ?_⟩
  intro step hmem terms settlement hcall
  obtain ⟨hsound, hordered, adjudicator, operation, hstep⟩ :=
    ordered_of_mem_run (sound_create h) (ordered_create h) hmem
  have hoperation : step.operation = operation := by rw [hstep, (step_fields _ _ _).2]
  rw [hstep] at hcall
  rcases mem_calls_step hcall with
    ⟨index, key, gas, -, hdeposit⟩ | ⟨index, key, signatures, gas, hconclude, hok⟩
  · exact absurd hdeposit depositCall_ne_conclude
  · obtain ⟨-, hfinal, participant, transactor, made, hplace, hkey, haddress, hmade, heq⟩ :=
      concludeCall_ok hok
    obtain ⟨rfl, rfl⟩ := Call.conclude.inj heq
    refine ⟨⟨index, key, signatures, gas, participant, hoperation.trans hconclude, hplace, hkey,
      haddress, rfl, hmade⟩, hfinal, ?_, fun turn => hordered.supported_le_lastState⟩
    obtain ⟨entry, hentry, hhash, slot, sig, hslot⟩ := hordered.final hfinal
    obtain ⟨signer, hsigner, hrecover⟩ := hsound.recovers hentry hslot
    exact ⟨entry, hentry, hhash, slot, sig, signer, hslot, hsigner, hhash ▸ hrecover⟩

theorem soloRun_settles_once :
    soloRun.map (·.answer.failure?)
      = [none, some (.sign (.conflictingState 5)), none, some (.conclude .alreadyConcluded)] ∧
    soloRun.countP (·.answer.isSettled) ≤ 1 :=
  ⟨failures_soloRun, (run_settles_once_by_last_state create_solo _).1⟩

end DebtChannel.Channel
