import DebtChannel.Proofs.CoveredDeposits
import DebtChannel.Proofs.Finality

/-!
# What still changes in a settled channel

That a channel was settled is a flag, and two of the six operations look at it: no turn is handed
out any more, and it is not settled again. The others go on as if nothing had happened. A deposit is
made as long as everyone signed the state before funding, although nobody will get it back, and a
state is signed that was not signed before, such as a draft that was handed out earlier; then it is
on record and the last state.

What is left is to say when nothing changes. Once the flag is set only signatures can do it, and a
signature does not if it repeats one on record: its signer has signed the turn already, and the
signed state is the last state anyway, or it is the state before funding, which is signed without
becoming the last one. Signatures themselves are not compared here, only whose they are, since a
signature that is made again takes the place of the first. The proof that such a signature changes
nothing needs the order of the turns once more: when the turn it adds to is complete, the latest
supported turn is no lower, so it does not move.
-/

namespace DebtChannel

/-! ## Who signed what -/

/-- What is on record for a turn, with those who signed instead of their signatures. -/
def SignedTurn.outline (entry : SignedTurn) : State × Hash × List Bool :=
  (entry.state, entry.hash, entry.slots.map Option.isSome)

namespace SignedTurn

variable {entry other : SignedTurn} {index : Nat}

theorem isSome_signatureOf?_iff :
    (entry.signatureOf? index).isSome = true ↔ entry.outline.2.2[index]? = some true := by
  show (entry.slots[index]?).join.isSome = true ↔ (entry.slots.map Option.isSome)[index]? = some true
  rw [List.getElem?_map]
  cases entry.slots[index]? with
  | none => exact ⟨nofun, nofun⟩
  | some slot => exact ⟨congrArg some, Option.some.inj⟩

theorem isSome_signatureOf?_of_outline (h : other.outline = entry.outline) :
    (other.signatureOf? index).isSome = (entry.signatureOf? index).isSome := by
  rw [Bool.eq_iff_iff, isSome_signatureOf?_iff, isSome_signatureOf?_iff, h]

theorem isComplete_of_outline (h : other.outline = entry.outline) :
    other.isComplete = entry.isComplete := by
  have hcomplete (entry : SignedTurn) : entry.isComplete = entry.outline.2.2.all id := by
    rw [isComplete, outline, List.all_map]
    rfl
  rw [hcomplete, hcomplete, h]

/-- Who signs again is already among those who signed. -/
theorem outline_addSignature (h : (entry.signatureOf? index).isSome = true) (sig : Signature) :
    (entry.addSignature index sig).outline = entry.outline := by
  rw [isSome_signatureOf?_iff] at h
  obtain ⟨hlt, hfilled⟩ := List.getElem?_eq_some_iff.mp h
  have hslots : (entry.slots.map Option.isSome).set index true = entry.slots.map Option.isSome := by
    refine (congrArg _ hfilled.symm).trans ?_
    exact List.set_getElem_self hlt
  rw [outline, addSignature, List.map_set]
  exact congrArg (fun slots => (entry.state, entry.hash, slots)) hslots

end SignedTurn

namespace Channel

variable {ρ ε : Type} {channel : Channel}

/-- The later channel has the same last state, the same latest supported turn and the same turns on
record, signed by the same members. -/
structure SameRecord (earlier later : Channel) : Prop where
  lastState_eq : later.lastState = earlier.lastState
  latestSupported_eq : later.latestSupported = earlier.latestSupported
  turns_eq : ∀ turn, (later.signedTurn? turn).map SignedTurn.outline
    = (earlier.signedTurn? turn).map SignedTurn.outline

theorem SameRecord.refl (channel : Channel) : SameRecord channel channel := ⟨rfl, rfl, fun _ => rfl⟩

theorem SameRecord.symm {earlier later : Channel} (h : SameRecord earlier later) :
    SameRecord later earlier :=
  ⟨h.lastState_eq.symm, h.latestSupported_eq.symm, fun turn => (h.turns_eq turn).symm⟩

theorem SameRecord.trans {a b c : Channel} (hab : SameRecord a b) (hbc : SameRecord b c) :
    SameRecord a c :=
  ⟨hbc.lastState_eq.trans hab.lastState_eq, hbc.latestSupported_eq.trans hab.latestSupported_eq,
    fun turn => (hbc.turns_eq turn).trans (hab.turns_eq turn)⟩

theorem SameRecord.exists_entry {earlier later : Channel} (h : SameRecord earlier later)
    {turn : UInt64} {entry : SignedTurn} (hentry : later.signedTurn? turn = some entry) :
    ∃ found, earlier.signedTurn? turn = some found ∧ entry.outline = found.outline := by
  have hsame := h.turns_eq turn
  rw [hentry, Option.map_some] at hsame
  obtain ⟨found, hfound, houtline⟩ := Option.map_eq_some_iff.mp hsame.symm
  exact ⟨found, hfound, houtline.symm⟩

/-- The state is on record with a signature of whoever made this one. -/
def Repeats (channel : Channel) (state : State) (sig : Signature) : Prop :=
  ∃ account index entry, sig.recoverSigner state.hash = .ok account ∧
    state.participantIndex? account = some index ∧
    channel.signedTurn? state.turn = some entry ∧ (entry.signatureOf? index).isSome = true

theorem Repeats.isSome_signatureOf? {state : State} {index : Nat} {sig : Signature}
    (h : channel.Repeats state sig) (hadmits : channel.Admits state index sig) :
    ∃ entry, channel.signedTurn? state.turn = some entry ∧
      (entry.signatureOf? index).isSome = true := by
  obtain ⟨account, place, entry, hrecover, hplace, hentry, hslot⟩ := h
  obtain ⟨signer, hsigner, hindex⟩ := hadmits.signed
  obtain rfl := Except.ok.inj (hrecover.symm.trans hsigner)
  obtain rfl := Option.some.inj (hplace.symm.trans hindex)
  exact ⟨entry, hentry, hslot⟩

theorem Repeats.of_sameRecord {other : Channel} {state : State} {sig : Signature}
    (h : channel.Repeats state sig) (hsame : SameRecord other channel) :
    other.Repeats state sig := by
  obtain ⟨account, index, entry, hrecover, hplace, hentry, hslot⟩ := h
  obtain ⟨found, hfound, houtline⟩ := hsame.exists_entry hentry
  rw [SignedTurn.isSome_signatureOf?_of_outline houtline] at hslot
  exact ⟨account, index, found, hrecover, hplace, hfound, hslot⟩

/-- A signature that is made again changes nothing. -/
theorem Ordered.sameRecord_record (h : channel.Ordered) {state : State} {index : Nat}
    {sig : Signature} (hadmits : channel.Admits state index sig)
    (hrepeats : channel.Repeats state sig) :
    SameRecord channel (channel.record state index sig) := by
  obtain ⟨entry, hentry, hslot⟩ := hrepeats.isSome_signatureOf? hadmits
  have houtline : ((channel.entryFor state).addSignature index sig).outline = entry.outline := by
    rw [entryFor_of_signedTurn? hentry]
    exact SignedTurn.outline_addSignature hslot sig
  refine ⟨rfl, ?_, fun turn => ?_⟩
  · rw [latestSupported_record, SignedTurn.isComplete_of_outline houtline]
    split
    · next hboth =>
        -- The turn was complete before, so the latest supported one is not below it.
        rw [Bool.and_eq_true] at hboth
        have hsupported : channel.isSupported state.turn = true := by
          rw [isSupported_eq_any, hentry]
          exact hboth.1
        obtain ⟨latest, hlatest, hle⟩ := h.supported_le state.turn hsupported
        rw [hlatest, Option.all_some, decide_eq_true_eq] at hboth
        exact absurd hboth.2 (UInt64.not_lt.mpr hle)
    · rfl
  · rw [signedTurn?_record]
    split
    · next hturn =>
        subst hturn
        rw [hentry, Option.map_some, Option.map_some, houtline]
    · rfl

/-! ## One step of a settled channel -/

theorem proposeState_of_concluded (h : channel.concluded = true) (adjudicator : Adjudicator ρ ε) :
    (channel.step adjudicator .proposeState).answer = .failed (.propose .finalStateReached) := by
  have hrefusal : channel.proposalRefusal? = some .finalStateReached := by
    rw [proposalRefusal?, h, Bool.true_or, if_pos rfl]
  rw [step_proposeState, outcome_proposeState, hrefusal]
  rfl

theorem conclude_of_concluded (h : channel.concluded = true) (adjudicator : Adjudicator ρ ε)
    (index : UInt64) (key : Bytes) (signatures : Signatures) (gas : Option Gas) :
    (channel.step adjudicator (.conclude index key signatures gas)).answer
      = .failed (.conclude .alreadyConcluded) := by
  have hcall : channel.concludeCall adjudicator index key signatures gas
      = .error .alreadyConcluded := by
    rw [concludeCall, h, if_pos rfl]
  rw [step_conclude_of_error hcall]

/-- The only calls that a settled channel makes are deposits. -/
theorem mem_calls_of_concluded (h : channel.concluded = true) {adjudicator : Adjudicator ρ ε}
    {operation : Operation} {call : Call}
    (hcall : call ∈ (channel.step adjudicator operation).calls) :
    (∃ index key gas, operation = .fund index key gas) ∧ channel.preFundComplete = true ∧
      ∀ terms settlement, call ≠ .conclude terms settlement := by
  rcases mem_calls_step hcall with
    ⟨index, key, gas, hoperation, hdeposit⟩ | ⟨index, key, signatures, gas, -, hconclude⟩
  · refine ⟨⟨index, key, gas, hoperation⟩, (depositCall_ok hdeposit).1, ?_⟩
    rintro terms settlement rfl
    exact depositCall_ne_conclude hdeposit
  · exact absurd (h.symm.trans (concludeCall_ok hconclude).1) (by decide)

/-- In a settled channel only a signature changes the last state. -/
theorem Effect.sameRecord_of_concluded {after : Channel} {answer : Answer ρ ε}
    (heffect : Effect channel answer after) (h : channel.concluded = true)
    (hnot : ∀ state sig, answer ≠ .signed state sig) : SameRecord channel after := by
  cases heffect with
  | failed cause => exact SameRecord.refl channel
  | approved index sig hadmits => exact absurd rfl (hnot _ sig)
  | signed state index sig hadmits => exact absurd rfl (hnot state sig)
  | proposed draft hproposes => exact absurd (h.symm.trans hproposes.notConcluded) (by decide)
  | deposited receipt hcomplete => exact ⟨rfl, rfl, fun _ => rfl⟩
  | settled receipt hopen hfinal => exact absurd (h.symm.trans hopen) (by decide)

/-- A signature that repeats one on record changes nothing if it is over the last state, or over the
state before funding. -/
theorem Reachable.sameRecord_of_repeats (h : Reachable channel) {adjudicator : Adjudicator ρ ε}
    {operation : Operation} {state : State} {sig : Signature}
    (hsigned : (channel.step adjudicator operation).answer = .signed state sig)
    (hrepeats : channel.Repeats state sig)
    (hlast : (∃ key, operation = .approveInit key) ∨ state = channel.lastState) :
    SameRecord channel (channel.step adjudicator operation).after := by
  rcases (channel.step_effect adjudicator operation).turns_cases with
    ⟨-, -, hnot⟩ | ⟨signed, index, made, hanswer, hadmits, hturns, hlatest⟩
  · exact absurd hsigned (hnot state sig)
  · obtain ⟨rfl, rfl⟩ := Answer.signed.inj (hsigned.symm.trans hanswer)
    have hsame := h.ordered.sameRecord_record hadmits hrepeats
    refine ⟨?_, hlatest.trans hsame.latestSupported_eq, fun turn => ?_⟩
    · by_cases hinit : ∃ key, operation = .approveInit key
      · obtain ⟨key, rfl⟩ := hinit
        exact lastState_of_approveInit channel adjudicator key
      · rw [lastState_of_signed hsigned fun key hkey => hinit ⟨key, hkey⟩]
        exact hlast.resolve_left hinit
    · rw [signedTurn?, hturns]
      exact hsame.turns_eq turn

/-- And if nothing changes it was such a signature. -/
theorem Reachable.repeats_of_sameRecord (h : Reachable channel) {adjudicator : Adjudicator ρ ε}
    {operation : Operation} {state : State} {sig : Signature}
    (hsigned : (channel.step adjudicator operation).answer = .signed state sig)
    (hsame : SameRecord channel (channel.step adjudicator operation).after) :
    channel.Repeats state sig ∧
      ((∃ key, operation = .approveInit key) ∨ state = channel.lastState) := by
  obtain ⟨index, hadmits, hturns⟩ := exists_admits_of_signed hsigned
  obtain ⟨account, hrecover, hplace⟩ := hadmits.signed
  obtain ⟨entry, hentry, -, hslot⟩ := h.sound.recorded hadmits
  have hafter : (channel.step adjudicator operation).after.Repeats state sig := by
    refine ⟨account, index, entry, hrecover, hplace, ?_, by rw [hslot]; rfl⟩
    rw [signedTurn?, hturns]
    exact hentry
  refine ⟨hafter.of_sameRecord hsame, ?_⟩
  by_cases hinit : ∃ key, operation = .approveInit key
  · exact .inl hinit
  · rw [← hsame.lastState_eq, lastState_of_signed hsigned fun key hkey => hinit ⟨key, hkey⟩]
    exact .inr rfl

/-! ## Whole runs -/

section Run

variable {operations : List (Adjudicator ρ ε × Operation)}

theorem concluded_of_mem_run (h : channel.concluded = true) {step : Step ρ ε}
    (hmem : step ∈ channel.run operations) :
    step.before.concluded = true ∧ step.after.concluded = true := by
  refine forall_mem_run_of_kept (P := (·.concluded = true)) h (fun step hmem hbefore => ?_) step hmem
  rw [(effect_of_mem_run hmem).concluded.1, hbefore, Bool.true_or]

theorem sameRecord_run_iff (h : Reachable channel) (hconcluded : channel.concluded = true) :
    (∀ step ∈ channel.run operations, SameRecord channel step.after) ↔
      ∀ step ∈ channel.run operations, ∀ state sig, step.answer = .signed state sig →
        channel.Repeats state sig ∧
          ((∃ key, step.operation = .approveInit key) ∨ state = channel.lastState) := by
  constructor
  · intro hafter step hmem state sig hsigned
    have hbefore : SameRecord channel step.before :=
      (forall_mem_run_of_kept (SameRecord.refl channel) (fun step hmem _ => hafter step hmem) step
        hmem).1
    have hsame := hbefore.symm.trans (hafter step hmem)
    obtain ⟨adjudicator, hstep⟩ := eq_step_operation_of_mem_run hmem
    rw [hstep] at hsigned
    have hkept : SameRecord step.before (step.before.step adjudicator step.operation).after := by
      rw [← hstep]
      exact hsame
    obtain ⟨hrepeats, hlast⟩ :=
      (reachable_of_mem_run h hmem).1.repeats_of_sameRecord hsigned hkept
    rw [hbefore.lastState_eq] at hlast
    exact ⟨hrepeats.of_sameRecord hbefore, hlast⟩
  · intro hsigned step hmem
    refine (forall_mem_run_of_kept (SameRecord.refl channel) (fun step hmem hbefore => ?_) step
      hmem).2
    refine hbefore.trans ?_
    by_cases hany : ∃ state sig, step.answer = .signed state sig
    · obtain ⟨state, sig, hanswer⟩ := hany
      obtain ⟨hrepeats, hlast⟩ := hsigned step hmem state sig hanswer
      rw [← hbefore.lastState_eq] at hlast
      obtain ⟨adjudicator, hstep⟩ := eq_step_operation_of_mem_run hmem
      rw [hstep] at hanswer
      have hkept := (reachable_of_mem_run h hmem).1.sameRecord_of_repeats hanswer
        (hrepeats.of_sameRecord hbefore.symm) hlast
      rw [← hstep] at hkept
      exact hkept
    · exact (effect_of_mem_run hmem).sameRecord_of_concluded
        (concluded_of_mem_run hconcluded hmem).1 fun state sig hanswer => hany ⟨state, sig, hanswer⟩

end Run

/-- After a channel was settled it stays settled, no turn is handed out, and it is not settled again;
the only calls that still reach the adjudicator are deposits, and these only if everyone signed the
state before funding. The last state, the latest supported turn, and the states on record with those
who signed them stay as they are exactly if every signature that is still made repeats one of those,
over the last state or as that over the state before funding. -/
theorem settled_channel_changes_by_new_signatures_only {opening : Opening} {partIndex : UInt64}
    {config : Config} (h : create opening partIndex config = .ok channel)
    (operations : List (Adjudicator ρ ε × Operation)) {settling : Step ρ ε}
    (hmem : settling ∈ channel.run operations) {receipt : ρ}
    (hsettled : settling.answer = .settled receipt)
    (later : List (Adjudicator ρ ε × Operation)) :
    (∀ step ∈ settling.after.run later,
      step.after.concluded = true ∧
      (step.operation = .proposeState → step.answer = .failed (.propose .finalStateReached)) ∧
      (∀ index key signatures gas, step.operation = .conclude index key signatures gas →
        step.answer = .failed (.conclude .alreadyConcluded)) ∧
      ∀ call ∈ step.calls, (∃ index key gas, step.operation = .fund index key gas) ∧
        step.before.preFundComplete = true ∧ ∀ terms settlement, call ≠ .conclude terms settlement) ∧
    ((∀ step ∈ settling.after.run later, SameRecord settling.after step.after) ↔
      ∀ step ∈ settling.after.run later, ∀ state sig, step.answer = .signed state sig →
        settling.after.Repeats state sig ∧
          ((∃ key, step.operation = .approveInit key) ∨ state = settling.after.lastState)) := by
  have hreachable : Reachable settling.after := (reachable_of_mem_run (.create h) hmem).2
  have hconcluded : settling.after.concluded = true := by
    rw [(effect_of_mem_run hmem).concluded.1, hsettled, Answer.isSettled, Bool.or_true]
  refine ⟨fun step hstep => ?_, sameRecord_run_iff hreachable hconcluded⟩
  obtain ⟨hbefore, hafter⟩ := concluded_of_mem_run hconcluded hstep
  obtain ⟨adjudicator, hmade⟩ := eq_step_operation_of_mem_run hstep
  refine ⟨hafter, fun hoperation => ?_, fun index key signatures gas hoperation => ?_,
    fun call hcall => ?_⟩
  · rw [hmade, hoperation]
    exact proposeState_of_concluded hbefore adjudicator
  · rw [hmade, hoperation]
    exact conclude_of_concluded hbefore adjudicator index key signatures gas
  · rw [hmade] at hcall
    exact mem_calls_of_concluded hbefore hcall

/-! ## A deposit and a signature that come too late -/

/-- The member of the solo channel signs the state before funding and the final state, and settles
the channel. -/
def soloSettling : List (Adjudicator Unit Unit × Operation) :=
  [(accepting, .approveInit soloKey), (accepting, .signState ⟨soloFinal, .empty⟩ soloKey),
    (accepting, .conclude 0 soloKey ∅ none)]

/-- The last of these steps. -/
def settlingSolo : Step Unit Unit :=
  ((solo.step accepting (.approveInit soloKey)).after.step accepting
    (.signState ⟨soloFinal, .empty⟩ soloKey)).after.step accepting (.conclude 0 soloKey ∅ none)

/-- After that a deposit is made, and the draft of a later turn is signed. -/
def soloLate : List (Adjudicator Unit Unit × Operation) :=
  [(accepting, .fund 0 soloKey none), (accepting, .signState ⟨soloBeyond, .empty⟩ soloKey)]

/-- A channel of the solo proposal in which everyone signed the state before funding and no turn
above the bound was handed out. -/
structure Approved (bound : UInt64) (channel : Channel) : Prop where
  reachable : Reachable channel
  sameTerms : SameTerms channel solo
  preFundComplete : channel.preFundComplete = true
  lastTurn_le : channel.lastTurn ≤ bound

section Approved

variable {bound : UInt64}

theorem exists_sender_solo : ∃ found, solo.sender 1 0 soloKey = .ok found ∧
    (solo.step accepting (.approveInit soloKey)).after.preFundComplete = true := by
  obtain ⟨call, hcall⟩ := List.length_eq_one_iff.mp length_calls_soloFunding.1
  have hmem : call ∈ soloDepositing.calls := by
    rw [hcall]
    exact List.mem_singleton_self call
  rcases mem_calls_step hmem with
    ⟨index, key, gas, hoperation, hdeposit⟩ | ⟨_, _, _, _, hoperation, -⟩
  · obtain ⟨rfl, rfl, rfl⟩ := Operation.fund.inj hoperation
    obtain ⟨found, hsender⟩ := exists_sender_of_depositCall hdeposit
    rw [(step_effect solo accepting (.approveInit soloKey)).sameTerms.sender_eq] at hsender
    exact ⟨found, hsender, (depositCall_ok hdeposit).1⟩
  · cases hoperation

theorem Approved.exists_sender (h : Approved bound channel) :
    ∃ found, channel.sender 1 0 soloKey = .ok found := by
  obtain ⟨found, hsender, -⟩ := exists_sender_solo
  exact ⟨found, by rw [h.sameTerms.sender_eq, hsender]⟩

theorem Approved.step (h : Approved bound channel) (operation : Operation) {higher : UInt64}
    (hle : (channel.step accepting operation).after.lastTurn ≤ higher) :
    Approved higher (channel.step accepting operation).after where
  reachable := .step accepting operation h.reachable
  sameTerms := (channel.step_effect accepting operation).sameTerms.trans h.sameTerms
  preFundComplete := (keeps_step channel accepting operation).supported 0 h.preFundComplete
  lastTurn_le := hle

theorem Approved.signs (h : Approved bound channel) {signing : Channel} {state : State}
    (hsigned : (signing.step accepting (.signState ⟨state, .empty⟩ soloKey)).answer.failure? = none)
    (hfixed : state.toFixedPart = solo.fixed) (hone : 1 < state.turn) (hlt : bound < state.turn) :
    ∃ sig index, channel.step accepting (.signState ⟨state, .empty⟩ soloKey)
        = ⟨channel, .signState ⟨state, .empty⟩ soloKey, .signed state sig, [],
            (channel.record state index sig).advance state⟩ ∧
      Approved state.turn ((channel.record state index sig).advance state) := by
  have hnone : channel.refusal? state = none :=
    h.reachable.refusal?_eq_none_of_lt (by rw [hfixed, h.sameTerms.fixed_eq]) hone
      (UInt64.lt_of_le_of_lt h.lastTurn_le hlt)
  obtain ⟨index, sig, hsigns⟩ := exists_step_signState_eq hsigned hnone accepting
  refine ⟨sig, index, hsigns, ?_⟩
  have hle : (channel.step accepting (.signState ⟨state, .empty⟩ soloKey)).after.lastTurn
      ≤ state.turn := by
    rw [hsigns]
    exact lastTurn_record_advance_le (UInt64.le_trans h.lastTurn_le (UInt64.le_of_lt hlt))
      (UInt64.le_refl _)
  have happroved := h.step _ hle
  rwa [hsigns] at happroved

theorem Approved.settles (h : Approved bound channel) (hopen : channel.concluded = false)
    (hfinal : channel.lastState.isFinal = true) :
    ∃ call, channel.step accepting (.conclude 0 soloKey ∅ none)
        = ⟨channel, .conclude 0 soloKey ∅ none, .settled (), [call],
            { channel with concluded := true }⟩ ∧
      Approved bound { channel with concluded := true } := by
  obtain ⟨found, hsender⟩ := h.exists_sender
  obtain ⟨call, hcall⟩ := exists_concludeCall_eq_ok accepting hopen hfinal hsender ∅ none
  have hsettles := step_conclude_of_ok hcall (show accepting.submit call = .ok () from rfl)
  have happroved := h.step (.conclude 0 soloKey ∅ none) (by rw [hsettles]; exact h.lastTurn_le)
  rw [hsettles] at happroved
  exact ⟨call, hsettles, happroved⟩

theorem Approved.deposits (h : Approved bound channel) :
    ∃ call, channel.step accepting (.fund 0 soloKey none)
        = ⟨channel, .fund 0 soloKey none, .deposited (), [call],
            { channel with depositSubmitted := true }⟩ ∧
      Approved bound { channel with depositSubmitted := true } := by
  obtain ⟨found, hsender⟩ := h.exists_sender
  obtain ⟨call, hcall⟩ := exists_depositCall_eq_ok accepting h.preFundComplete hsender rfl none
  have hdeposits := step_fund_of_ok hcall (show accepting.submit call = .ok () from rfl)
  have happroved := h.step (.fund 0 soloKey none) (by rw [hdeposits]; exact h.lastTurn_le)
  rw [hdeposits] at happroved
  exact ⟨call, hdeposits, happroved⟩

/-- The member of an approved channel signs the final state, settles the channel, and then makes a
deposit and signs another draft. -/
theorem Approved.run_eq (h : Approved 0 channel) (hopen : channel.concluded = false) :
    ∃ settling : Step Unit Unit,
      (channel.step accepting (.signState ⟨soloFinal, .empty⟩ soloKey)).after.step accepting
        (.conclude 0 soloKey ∅ none) = settling ∧
      settling.answer = .settled () ∧ settling.after.lastState = soloFinal ∧
      ∃ depositing signing, settling.after.run soloLate = [depositing, signing] ∧
        depositing.calls.length = 1 ∧ signing.after.lastState = soloBeyond := by
  -- No signature is worked out here: another channel of the proposal has signed both states.
  obtain ⟨sig, index, hsigns, hsigned⟩ := h.signs counters_finishing.1 rfl (by decide) (by decide)
  have hlast := lastState_advance (channel.record soloFinal index sig) soloFinal
  have hopen' : ((channel.record soloFinal index sig).advance soloFinal).concluded = false := by
    rw [concluded_advance]
    exact hopen
  obtain ⟨call, hsettles, hsettled⟩ := hsigned.settles hopen' (by rw [hlast]; rfl)
  obtain ⟨call', hdeposits, hfunded⟩ := hsettled.deposits
  obtain ⟨sig', index', hsigns', -⟩ := hfunded.signs answer_overtaking.1 rfl (by decide) (by decide)
  refine ⟨_, rfl, ?_, ?_, ?_⟩
  · rw [hsigns, hsettles]
  · rw [hsigns, hsettles]
    exact hlast
  · rw [hsigns, hsettles, soloLate, run_cons, run_cons, hdeposits, hsigns']
    exact ⟨_, _, rfl, rfl, lastState_advance _ _⟩

end Approved

theorem approved_solo : Approved 0 (solo.step accepting (.approveInit soloKey)).after ∧
    (solo.step accepting (.approveInit soloKey)).after.concluded = false := by
  obtain ⟨-, -, hcomplete⟩ := exists_sender_solo
  have hafter := after_approveInit solo accepting soloKey
  refine ⟨⟨.step accepting _ (.create create_solo), (step_effect solo accepting _).sameTerms,
    hcomplete, ?_⟩, ?_⟩
  · rcases hafter with h | ⟨index, sig, h⟩ <;> rw [h] <;> exact UInt64.le_refl 0
  · rcases hafter with h | ⟨index, sig, h⟩ <;> rw [h] <;> rfl

theorem settled_settlingSolo :
    settlingSolo ∈ solo.run soloSettling ∧ settlingSolo.answer = .settled () ∧
      settlingSolo.after.lastState = soloFinal ∧
      ∃ depositing signing, settlingSolo.after.run soloLate = [depositing, signing] ∧
        depositing.calls.length = 1 ∧ signing.after.lastState = soloBeyond := by
  obtain ⟨happroved, hopen⟩ := approved_solo
  obtain ⟨settling, hsettling, hrest⟩ := happroved.run_eq hopen
  rw [settlingSolo, hsettling]
  refine ⟨?_, hrest⟩
  rw [soloSettling, run_cons, run_cons, run_cons, hsettling]
  exact List.mem_cons_of_mem _ (List.mem_cons_of_mem _ List.mem_cons_self)

theorem ne_of_soloLate : ∃ depositing signing,
    settlingSolo.after.run soloLate = [depositing, signing] ∧ depositing.calls.length = 1 ∧
      signing.after.lastState ≠ settlingSolo.after.lastState := by
  obtain ⟨-, -, hlast, depositing, signing, hrun, hcalls, hlate⟩ := settled_settlingSolo
  refine ⟨depositing, signing, hrun, hcalls, ?_⟩
  rw [hlate, hlast]
  exact fun hsame => absurd (congrArg State.turn hsame) (by decide)

/-- Money goes into the channel after it was settled, and its last state is replaced. -/
theorem settled_channel_takes_deposit_and_signature :
    create soloOpening 0 = .ok solo ∧
    ∃ settling ∈ solo.run soloSettling, settling.answer = .settled () ∧
      ∃ depositing signing, settling.after.run soloLate = [depositing, signing] ∧
        depositing.calls.length = 1 ∧
        signing.after.lastState ≠ settling.after.lastState := by
  obtain ⟨hmem, hsettled, -⟩ := settled_settlingSolo
  exact ⟨create_solo, settlingSolo, hmem, hsettled, ne_of_soloLate⟩

/-- So one of the late steps has made a new signature. -/
theorem solo_is_signed_anew :
    create soloOpening 0 = .ok solo ∧ settlingSolo ∈ solo.run soloSettling ∧
    settlingSolo.answer = .settled () ∧
    (∀ step ∈ settlingSolo.after.run soloLate, step.after.concluded = true) ∧
    ∃ step ∈ settlingSolo.after.run soloLate, ∃ state sig, step.answer = .signed state sig ∧
      ¬ (settlingSolo.after.Repeats state sig ∧
        ((∃ key, step.operation = .approveInit key) ∨ state = settlingSolo.after.lastState)) := by
  obtain ⟨hmem, hsettled, -⟩ := settled_settlingSolo
  obtain ⟨hclosed, hiff⟩ := settled_channel_changes_by_new_signatures_only create_solo soloSettling
    hmem hsettled soloLate
  refine ⟨create_solo, hmem, hsettled, fun step hstep => (hclosed step hstep).1, ?_⟩
  refine Classical.byContradiction fun hnone => ?_
  obtain ⟨depositing, signing, hlate, -, hne⟩ := ne_of_soloLate
  refine hne (hiff.mpr (fun step hstep state sig hsigned => ?_) signing ?_).lastState_eq
  · exact Classical.byContradiction fun hnew => hnone ⟨step, hstep, state, sig, hsigned, hnew⟩
  · rw [hlate]
    exact List.mem_cons_of_mem _ List.mem_cons_self

end Channel

end DebtChannel
