import DebtChannel.Proofs.Settling

/-!
# The three counters of a channel

A channel counts turns three times: the latest supported turn, the turn of the last state, and the
last turn handed out. They are changed in different operations. Signing the state before funding
moves only the first, signing any other state may move all three, and the second may also move
back; proposing moves the last two together. `Ordered` puts them in order. `Counted` ties them to
the record: the first is itself a supported turn, the last is not below any turn that carries a
signature, and what is on record for the turn of the last state is the last state, as far as
anybody has signed it.

The last point has an exception that the proof has to walk around. A proposal may take turn one,
which is on record from the start, with a state of its own; but then nobody has signed turn one
yet, and whoever does will make the recorded state the last one. Turn zero has no such exception,
since no proposal takes it, and there the invariant holds without any signature. That is what
carries it over the first operation of all, which signs turn zero and leaves the last state alone.
-/

namespace DebtChannel.Channel

variable {ρ ε : Type}

/-- What the counters say of the record. -/
structure Counted (channel : Channel) : Prop where
  complete : ∀ latest, channel.latestSupported = some latest → channel.isSupported latest = true
  signed_le : ∀ turn entry, channel.signedTurn? turn = some entry → entry.hasSignatures = true →
    turn ≤ channel.lastTurn
  signed : ∀ turn entry, channel.signedTurn? turn = some entry → turn ≠ 0 → turn ≠ 1 →
    entry.hasSignatures = true
  current : ∀ entry, channel.signedTurn? channel.lastState.turn = some entry →
    channel.lastState.turn = 0 ∨ entry.hasSignatures = true → entry.hash = channel.lastState.hash

theorem counted_create {opening : Opening} {partIndex : UInt64} {config : Config}
    {channel : Channel} (h : create opening partIndex config = .ok channel) : channel.Counted := by
  obtain ⟨hnone, -, rfl⟩ := create_ok h
  obtain ⟨hturn, -, -, -⟩ := initialDefect?_eq_none hnone
  refine ⟨nofun, fun turn entry hentry hsigned => ?_, fun turn entry hentry hzero hone => ?_,
    fun entry hentry _ => ?_⟩
  · rcases signedTurn?_ofOpening hentry with ⟨-, rfl⟩ | ⟨-, rfl⟩ <;>
      simp [SignedTurn.hasSignatures_ofState] at hsigned
  · rcases signedTurn?_ofOpening hentry with ⟨rfl, -⟩ | ⟨rfl, -⟩
    · exact absurd rfl hzero
    · exact absurd rfl hone
  · have hlast : (ofOpening opening partIndex config.proposalPolicy).lastState.turn = 0 := hturn
    rcases signedTurn?_ofOpening hentry with ⟨-, rfl⟩ | ⟨hone, -⟩
    · rfl
    · rw [hlast] at hone
      exact absurd hone (by decide)

/-! ## One signature -/

section Record

variable {channel : Channel} {state : State} {index : Nat} {sig : Signature}

theorem Counted.complete_record (h : channel.Counted) {latest : UInt64}
    (hlatest : (channel.record state index sig).latestSupported = some latest) :
    (channel.record state index sig).isSupported latest = true := by
  rw [latestSupported_record] at hlatest
  split at hlatest
  · next hcomplete =>
      obtain rfl := Option.some.inj hlatest
      rw [Bool.and_eq_true] at hcomplete
      rw [isSupported_record, if_pos rfl]
      exact hcomplete.1
  · exact (keeps_record channel state index sig).supported latest (h.complete latest hlatest)

theorem Counted.signed_record (h : channel.Counted) (hsound : channel.Sound)
    (hadmits : channel.Admits state index sig) {turn : UInt64} {entry : SignedTurn}
    (hentry : (channel.record state index sig).signedTurn? turn = some entry)
    (hzero : turn ≠ 0) (hone : turn ≠ 1) : entry.hasSignatures = true := by
  rcases signedTurn?_record_cases hentry with ⟨-, rfl⟩ | hold
  · exact SignedTurn.hasSignatures_addSignature (hsound.index_lt_slots hadmits)
  · exact h.signed turn entry hold hzero hone

/-- Turn zero is signed. The last state stays what it is, and agrees with turn zero if that is its
own turn. -/
theorem Counted.record (h : channel.Counted) (hsound : channel.Sound)
    (hadmits : channel.Admits state index sig) (hturn : state.turn = 0) :
    (channel.record state index sig).Counted where
  complete _ := h.complete_record
  signed_le turn entry hentry hsigned := by
    rcases signedTurn?_record_cases hentry with ⟨rfl, -⟩ | hold
    · rw [hturn]
      exact UInt64.zero_le
    · exact h.signed_le turn entry hold hsigned
  signed _ _ hentry := h.signed_record hsound hadmits hentry
  current entry hentry hsigned := by
    have hentry : (channel.record state index sig).signedTurn? channel.lastState.turn = some entry :=
      hentry
    rcases signedTurn?_record_cases hentry with ⟨hlast, rfl⟩ | hold
    · show (channel.entryFor state).hash = channel.lastState.hash
      rw [hadmits.entryFor_hash]
      obtain ⟨before, hbefore⟩ : ∃ before, channel.signedTurn? 0 = some before := ⟨_, rfl⟩
      rw [hturn] at hlast
      rw [← hadmits.agrees before (by rw [hturn]; exact hbefore)]
      exact h.current before (by rw [hlast]; exact hbefore) (.inl hlast)
    · exact h.current entry hold hsigned

theorem lastTurn_le_advance (channel : Channel) (state : State) :
    channel.lastTurn ≤ (channel.advance state).lastTurn := by
  rw [lastTurn_advance]
  split
  · exact UInt64.le_refl _
  · rw [UInt64.le_iff_toNat_le, toNat_max]
    exact Nat.le_max_left _ _

/-- A state is signed and becomes the last one. It is the one on record, up to its hash. -/
theorem Counted.record_advance (h : channel.Counted) (hsound : channel.Sound)
    (hordered : channel.Ordered) (hadmits : channel.Admits state index sig) :
    ((channel.record state index sig).advance state).Counted where
  complete latest hlatest := by
    rw [latestSupported_advance] at hlatest
    rw [isSupported_advance]
    exact h.complete_record hlatest
  signed_le turn entry hentry hsigned := by
    rw [signedTurn?_advance] at hentry
    rcases signedTurn?_record_cases hentry with ⟨rfl, -⟩ | hold
    · have hle := (hordered.record_advance hsound hadmits).lastState_le
      rw [lastState_advance] at hle
      exact hle
    · have hgrows : channel.lastTurn ≤ ((channel.record state index sig).advance state).lastTurn :=
        lastTurn_le_advance (channel.record state index sig) state
      exact UInt64.le_trans (h.signed_le turn entry hold hsigned) hgrows
  signed turn entry hentry := by
    rw [signedTurn?_advance] at hentry
    exact h.signed_record hsound hadmits hentry
  current entry hentry _ := by
    rw [lastState_advance, signedTurn?_record_advance] at hentry
    obtain rfl := Option.some.inj hentry
    rw [lastState_advance]
    exact hadmits.entryFor_hash

end Record

/-! ## One step -/

theorem Counted.propose {channel : Channel} (h : channel.Counted) {draft : Draft}
    (hproposes : channel.Proposes draft) :
    Counted { channel with lastState := draft.state, lastTurn := channel.lastTurn + 1 } := by
  have hnext := hproposes.toNat_next
  have hturn : draft.state.turn = channel.lastTurn + 1 := by rw [hproposes.state_eq]
  refine ⟨h.complete, fun turn entry hentry hsigned => ?_, h.signed, fun entry hentry hsigned => ?_⟩
  · have hle := h.signed_le turn entry hentry hsigned
    rw [UInt64.le_iff_toNat_le] at hle ⊢
    show turn.toNat ≤ (channel.lastTurn + 1).toNat
    omega
  · have hentry : channel.signedTurn? draft.state.turn = some entry := hentry
    rcases hsigned with hzero | hsigned
    · have hzero : channel.lastTurn + 1 = 0 := hturn.symm.trans hzero
      rw [hzero] at hnext
      exact absurd hnext (by simp)
    · have hle := h.signed_le _ entry hentry hsigned
      rw [hturn, UInt64.le_iff_toNat_le] at hle
      omega

theorem Effect.counted {channel after : Channel} {answer : Answer ρ ε}
    (heffect : Effect channel answer after) (hsound : channel.Sound) (hordered : channel.Ordered)
    (h : channel.Counted) : after.Counted := by
  cases heffect with
  | failed cause => exact h
  | approved index sig hadmits => exact h.record hsound hadmits (hsound.entries 0 _ rfl).turn_eq
  | signed state index sig hadmits => exact h.record_advance hsound hordered hadmits
  | proposed draft hproposes => exact h.propose hproposes
  | deposited receipt hcomplete => exact ⟨h.complete, h.signed_le, h.signed, h.current⟩
  | settled receipt hconcluded hfinal => exact ⟨h.complete, h.signed_le, h.signed, h.current⟩

theorem Reachable.ordered {channel : Channel} (h : Reachable channel) : channel.Ordered := by
  induction h with
  | create h => exact ordered_create h
  | step adjudicator operation hreachable ih =>
      exact (step_effect _ adjudicator operation).ordered hreachable.sound ih

theorem Reachable.counted {channel : Channel} (h : Reachable channel) : channel.Counted := by
  induction h with
  | create h => exact counted_create h
  | step adjudicator operation hreachable ih =>
      exact (step_effect _ adjudicator operation).counted hreachable.sound hreachable.ordered ih

/-- Above the last turn that was handed out no state of the channel is refused. -/
theorem Reachable.refusal?_eq_none_of_lt {channel : Channel} (h : Reachable channel)
    {state : State} (hfixed : state.toFixedPart = channel.fixed) (hone : 1 < state.turn)
    (hlt : channel.lastTurn < state.turn) : channel.refusal? state = none := by
  refine refusal?_eq_none_iff.mpr ⟨hfixed, fun latest hlatest => ?_, fun entry hentry => ?_⟩
  · exact UInt64.le_trans (h.ordered.latest_le latest hlatest)
      (UInt64.le_trans h.ordered.lastState_le (UInt64.le_of_lt hlt))
  · have hzero : state.turn ≠ 0 := fun hzero => UInt64.not_lt_zero (hzero ▸ hone)
    have hsigned := h.counted.signed _ entry hentry hzero (UInt64.ne_of_lt hone).symm
    exact absurd (h.counted.signed_le _ entry hentry hsigned) (UInt64.not_le.mpr hlt)

/-! ## What the counters say -/

section Reached

variable {channel : Channel}

theorem latestSupported_eq_some_iff (hordered : channel.Ordered) (hcounted : channel.Counted)
    (turn : UInt64) :
    channel.latestSupported = some turn ↔
      channel.isSupported turn = true ∧
        ∀ other, channel.isSupported other = true → other ≤ turn := by
  constructor
  · intro hlatest
    refine ⟨hcounted.complete turn hlatest, fun other hother => ?_⟩
    obtain ⟨latest, hsome, hle⟩ := hordered.supported_le other hother
    obtain rfl := Option.some.inj (hlatest.symm.trans hsome)
    exact hle
  · rintro ⟨hturn, hmax⟩
    obtain ⟨latest, hsome, hle⟩ := hordered.supported_le turn hturn
    have hge := hmax latest (hcounted.complete latest hsome)
    rw [hsome, UInt64.le_antisymm hge hle]

theorem latestSupported_eq_none_iff (hordered : channel.Ordered) (hcounted : channel.Counted) :
    channel.latestSupported = none ↔ ∀ turn, channel.isSupported turn = false := by
  constructor
  · intro hnone turn
    cases hsupported : channel.isSupported turn with
    | false => rfl
    | true =>
        obtain ⟨latest, hsome, -⟩ := hordered.supported_le turn hsupported
        rw [hnone] at hsome
        cases hsome
  · intro hall
    cases hlatest : channel.latestSupported with
    | none => rfl
    | some latest =>
        have hsupported := hcounted.complete latest hlatest
        rw [hall latest] at hsupported
        cases hsupported

theorem Sound.hasSignatures_of_isComplete (hsound : channel.Sound) {turn : UInt64}
    {entry : SignedTurn} (hentry : channel.signedTurn? turn = some entry)
    (hcomplete : entry.isComplete = true) : entry.hasSignatures = true := by
  refine SignedTurn.hasSignatures_of_isComplete ?_ hcomplete
  rw [(hsound.entries turn entry hentry).length_slots]
  exact List.length_pos_iff.mpr hsound.nonempty

theorem isSupported_lastState_iff (hsound : channel.Sound) (hcounted : channel.Counted) :
    channel.isSupported channel.lastState.turn = true ↔
      ∃ entry, channel.signedTurn? channel.lastState.turn = some entry ∧
        entry.hash = channel.lastState.hash ∧ entry.isComplete = true := by
  rw [isSupported_eq_any]
  constructor
  · intro hany
    obtain ⟨entry, hentry, hcomplete⟩ := Option.any_eq_true _ _ |>.mp hany
    have hsigned := hsound.hasSignatures_of_isComplete hentry hcomplete
    exact ⟨entry, hentry, hcounted.current entry hentry (.inr hsigned), hcomplete⟩
  · rintro ⟨entry, hentry, -, hcomplete⟩
    rw [hentry]
    exact hcomplete

end Reached

/-- At any time the counters of a channel agree with its record. The latest supported turn is the
largest turn that everyone signed, and there is none only if there is no such turn; it is at most
the turn of the last state, which is at most the last turn handed out. That is at least every turn
that anyone signed, and only turns zero and one are on record without a signature. What was signed
for the turn of the last state is the last state, so whether that turn is supported says whether
everyone signed the last state. -/
theorem turn_counters_agree_with_record {channel : Channel} (h : Reachable channel) :
    (∀ turn, channel.latestSupported = some turn ↔
      channel.isSupported turn = true ∧
        ∀ other, channel.isSupported other = true → other ≤ turn) ∧
    (channel.latestSupported = none ↔ ∀ turn, channel.isSupported turn = false) ∧
    (∀ latest, channel.latestSupported = some latest → latest ≤ channel.lastState.turn) ∧
    channel.lastState.turn ≤ channel.lastTurn ∧
    (∀ turn entry, channel.signedTurn? turn = some entry → entry.hasSignatures = true →
      turn ≤ channel.lastTurn) ∧
    (∀ turn entry, channel.signedTurn? turn = some entry → turn ≠ 0 → turn ≠ 1 →
      entry.hasSignatures = true) ∧
    (∀ entry, channel.signedTurn? channel.lastState.turn = some entry →
      entry.hasSignatures = true → entry.hash = channel.lastState.hash) ∧
    (channel.isSupported channel.lastState.turn = true ↔
      ∃ entry, channel.signedTurn? channel.lastState.turn = some entry ∧
        entry.hash = channel.lastState.hash ∧ entry.isComplete = true) := by
  have hsound := h.sound
  have hordered := h.ordered
  have hcounted := h.counted
  exact ⟨latestSupported_eq_some_iff hordered hcounted,
    latestSupported_eq_none_iff hordered hcounted, hordered.latest_le, hordered.lastState_le,
    hcounted.signed_le, hcounted.signed,
    fun entry hentry hsigned => hcounted.current entry hentry (.inr hsigned),
    isSupported_lastState_iff hsound hcounted⟩

/-- The final state that the member of the solo channel signs, as turn two. -/
def soloFinal : State := { soloOpening.state with turn := 2, isFinal := true }

/-- The draft of turn three, which is handed out before. -/
def soloBeyond : State := { soloOpening.state with turn := 3 }

/-- The solo channel with three turns handed out. -/
def handedOut : Channel :=
  let next (channel : Channel) := (channel.step accepting .proposeState).after
  next (next (next solo))

/-- The final state of turn two is signed while turn three is outstanding. -/
def finishing : Step Unit Unit := handedOut.step accepting (.signState ⟨soloFinal, .empty⟩ soloKey)

/-- The draft of turn three is signed all the same. -/
def overtaking : Step Unit Unit :=
  finishing.after.step accepting (.signState ⟨soloBeyond, .empty⟩ soloKey)

theorem counters_finishing_overtaking :
    handedOut.lastState = soloBeyond ∧ handedOut.lastTurn = 3 ∧
    [finishing, overtaking].map (fun step => (step.answer.failure?, step.after.latestSupported,
        step.after.lastState, step.after.lastTurn, (step.after.signedTurn? 2).map SignedTurn.state))
      = [(none, some 2, soloFinal, 3, some soloFinal),
        (none, some 3, soloBeyond, 3, some soloFinal)] := by
  decide +kernel

theorem counters_finishing :
    finishing.answer.failure? = none ∧ finishing.after.latestSupported = some 2 ∧
      finishing.after.lastState = soloFinal ∧ finishing.after.lastTurn = 3 ∧
      (finishing.after.signedTurn? 2).map SignedTurn.state = some soloFinal := by
  have hboth := counters_finishing_overtaking.2.2
  simp only [List.map_cons, List.cons.injEq, Prod.mk.injEq] at hboth
  exact hboth.1

theorem answer_overtaking :
    overtaking.answer.failure? = none ∧ overtaking.after.lastState = soloBeyond := by
  have hboth := counters_finishing_overtaking.2.2
  simp only [List.map_cons, List.cons.injEq, Prod.mk.injEq] at hboth
  exact ⟨hboth.2.1.1, hboth.2.1.2.2.1⟩

theorem reachable_finishing : Reachable finishing.after :=
  .step _ _ (.step _ _ (.step _ _ (.step _ _ (.create create_solo))))

/-- The last state of the solo channel has moved back to turn two, with turn three handed out. -/
theorem turn_counters_finishing :
    Reachable finishing.after ∧ finishing.after.lastState = soloFinal ∧
    finishing.after.lastTurn = 3 ∧
    finishing.after.isSupported 2 = true ∧
    ∀ other, finishing.after.isSupported other = true → other ≤ 2 := by
  obtain ⟨-, hlatest, hlast, hturn, -⟩ := counters_finishing
  have hcounters := turn_counters_agree_with_record reachable_finishing
  exact ⟨reachable_finishing, hlast, hturn, (hcounters.1 2).mp hlatest⟩

end DebtChannel.Channel
