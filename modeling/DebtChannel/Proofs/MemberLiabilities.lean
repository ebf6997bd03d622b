import DebtChannel.Proofs.AgreedLedgers

/-!
# Only members owe each other

Neither a ledger nor its bytes nor a channel know who the members are: any two numbers are a pair.
Only the three ways of changing the ledger of a draft ask whether the pair is one of two different
members. That is enough as long as drafts come from nowhere else. What is changed is then always a
draft that the channel handed out, which began with the ledger of the last state; the changes add
pairs of members only; and approving writes the ledger that results into the state, from which the
channel reads it again when it hands out the next draft.

The proof goes around that circle, so what it carries along a run is about more than the channel:
every draft that was handed out so far has to be sound, since any of them may be signed later. A
draft that was sent reads back as it was, so sending changes nothing. The two ways to get other
pairs in, replacing the data of a draft and making a draft of a foreign state, are left out.
-/

namespace DebtChannel

/-- The pair is one of two different members of a channel with so many of them. -/
structure Pair.Between (count : Nat) (pair : Pair) : Prop where
  debtor_lt : pair.debtor.toNat < count
  creditor_lt : pair.creditor.toNat < count
  ne : pair.debtor ≠ pair.creditor

namespace Ledger

/-- Only members owe each other. -/
def Within (count : Nat) (ledger : Ledger) : Prop :=
  ∀ pair balances, ledger.pair? pair = some balances → pair.Between count

variable {count : Nat} {ledger : Ledger} {pair : Pair}

theorem within_empty : empty.Within count := by
  intro pair balances h
  rw [pair?_empty] at h
  cases h

theorem Within.put (h : ledger.Within count) (hpair : pair.Between count) (balances : Balances) :
    (ledger.put pair balances).Within count := by
  intro other found hfound
  rw [pair?_put] at hfound
  split at hfound
  · next hsame => exact hsame ▸ hpair
  · exact h other found hfound

theorem Within.acknowledge (h : ledger.Within count) (hpair : pair.Between count) {asset : AssetCode}
    {amount : Uint256} {after : Ledger} (hok : ledger.acknowledge pair asset amount = .ok after) :
    after.Within count := by
  obtain ⟨balances, -, rfl⟩ := exists_ok_of_map_eq_ok hok
  exact h.put hpair _

theorem Within.revert (h : ledger.Within count) (hpair : pair.Between count) {asset : AssetCode}
    {amount : Uint256} {after : Ledger} (hok : ledger.revert pair asset amount = .ok after) :
    after.Within count := by
  obtain ⟨balances, -, rfl⟩ := exists_ok_of_map_eq_ok hok
  exact h.put hpair balances

end Ledger

/-- The data of the state is a ledger in which only members owe each other. -/
def State.OwedWithin (count : Nat) (state : State) : Prop :=
  ∃ ledger, Ledger.decode state.appData = .ok ledger ∧ ledger.Within count

/-! ## Drafts -/

namespace Draft

/-- What becomes of a draft that is negotiated: its ledger is changed and approved, it is marked as
the last one, and it is sent. -/
inductive Negotiated (base : Draft) : Draft → Prop where
  | start : Negotiated base base
  | change {draft : Draft} (operation : Operation) (h : Negotiated base draft)
      (hdata : ∀ appData, operation ≠ .setAppData appData) : Negotiated base (draft.after operation)
  | send {draft received : Draft} (h : Negotiated base draft)
      (hsize : draft.encode.length < UInt64.size) (hreceived : decode draft.encode = .ok received) :
      Negotiated base received

/-- Only members owe each other, in the ledger of the draft as in that of its state. -/
structure Bounded (count : Nat) (draft : Draft) : Prop where
  members : draft.state.participants.length = count
  zeroFree : draft.ledger.ZeroFree
  within : draft.ledger.Within count
  agreed : draft.state.appData.length < UInt64.size → draft.state.OwedWithin count

variable {count : Nat} {draft : Draft}

theorem pairError?_eq_none {pair : Pair} (h : draft.pairError? pair = none) :
    pair.Between draft.state.participants.length := by
  unfold pairError? at h
  simp only [] at h
  split at h
  · cases h
  · next hdebtor =>
      split at h
      · cases h
      · next hcreditor =>
          split at h
          · cases h
          · next hne => exact ⟨Nat.lt_of_not_le hdebtor, Nat.lt_of_not_le hcreditor, hne⟩

theorem Bounded.readable (h : draft.Bounded count) : draft.Readable := by
  refine ⟨h.zeroFree, fun hsize => ?_⟩
  obtain ⟨ledger, hledger, -⟩ := h.agreed hsize
  exact ⟨ledger, hledger⟩

theorem Bounded.changeLedger (h : draft.Bounded count) {pair : Pair}
    {change : Ledger → Except Ledger.Error Ledger} {changed : Draft}
    (hchange : ∀ ledger, change draft.ledger = .ok ledger → pair.Between count →
      ledger.ZeroFree ∧ ledger.Within count)
    (hok : draft.changeLedger pair change = .ok changed) : changed.Bounded count := by
  obtain ⟨ledger, hpair, hledger, rfl⟩ := changeLedger_ok hok
  obtain ⟨hfree, hwithin⟩ := hchange ledger hledger (h.members ▸ pairError?_eq_none hpair)
  exact ⟨h.members, hfree, hwithin, h.agreed⟩

theorem Bounded.apply (h : draft.Bounded count) {operation : Operation}
    (hdata : ∀ appData, operation ≠ .setAppData appData) {changed : Draft}
    (hok : draft.apply operation = .ok changed) : changed.Bounded count := by
  cases operation with
  | setFinal =>
      obtain rfl := Except.ok.inj hok
      exact ⟨h.members, h.zeroFree, h.within, h.agreed⟩
  | setAppData appData => exact absurd rfl (hdata appData)
  | request pair asset amount =>
      refine h.changeLedger (fun ledger hledger hpair => ?_) (eq_ok_of_mapError_eq_ok hok)
      obtain rfl := Except.ok.inj hledger
      exact ⟨h.zeroFree.request pair asset amount, h.within.put hpair _⟩
  | acknowledge pair asset amount =>
      refine h.changeLedger (fun ledger hledger hpair => ?_) (eq_ok_of_mapError_eq_ok hok)
      exact ⟨h.zeroFree.acknowledge hledger, h.within.acknowledge hpair hledger⟩
  | revert pair asset amount =>
      refine h.changeLedger (fun ledger hledger hpair => ?_) (eq_ok_of_mapError_eq_ok hok)
      exact ⟨h.zeroFree.revert hledger, h.within.revert hpair hledger⟩
  | approve =>
      -- The ledger of the state is that of the draft from now on.
      obtain rfl := Except.ok.inj hok
      exact ⟨h.members, h.zeroFree, h.within,
        fun hsize => ⟨draft.ledger, h.zeroFree.decode_encode hsize, h.within⟩⟩

theorem Bounded.after (h : draft.Bounded count) {operation : Operation}
    (hdata : ∀ appData, operation ≠ .setAppData appData) :
    (draft.after operation).Bounded count := by
  unfold Draft.after
  split
  · next changed hok => exact h.apply hdata hok
  · exact h

theorem Bounded.negotiated {base : Draft} (h : base.Bounded count)
    (hnegotiated : base.Negotiated draft) : draft.Bounded count := by
  induction hnegotiated with
  | start => exact h
  | change operation _ hdata ih => exact ih.after hdata
  | send _ hsize hreceived ih =>
      obtain rfl := Except.ok.inj (hreceived.symm.trans (ih.readable.decode_encode hsize))
      exact ih

end Draft

/-! ## Channels -/

namespace Channel

variable {ρ ε : Type} {channel : Channel} {count : Nat}

theorem ignoresTurn_owedWithin : IgnoresTurn (State.OwedWithin count) := fun _ _ h => h

/-- A draft that is handed out begins with the ledger of the last state. -/
theorem Proposes.bounded {draft : Draft} (h : channel.Proposes draft)
    (hmembers : channel.lastState.participants.length = count)
    (hlast : channel.lastState.OwedWithin count) : draft.Bounded count := by
  have hledger := h.decode_lastState
  obtain ⟨ledger, hread, hwithin⟩ := hlast
  obtain rfl := Except.ok.inj (hread.symm.trans hledger)
  have hstate : draft.state = { channel.lastState with turn := channel.lastTurn + 1 } := h.state_eq
  refine ⟨?_, Ledger.zeroFree_decode hledger, hwithin, fun _ => ?_⟩
  · rw [hstate]
    exact hmembers
  · rw [hstate]
    exact ⟨draft.ledger, hledger, hwithin⟩

/-- Whatever is handed in to be signed was handed out before and negotiated since. -/
def SignsNegotiated (steps : List (Step ρ ε)) : Prop :=
  ∀ earlier step later, steps = earlier ++ step :: later →
    ∀ draft key, step.operation = .signState draft key →
      draft.state.appData.length < UInt64.size ∧
      ∃ proposing ∈ earlier, ∃ base, proposing.answer = .proposed base ∧ base.Negotiated draft

/-- What is known after some steps of such a run. -/
structure OwesWithin (count : Nat) (steps : List (Step ρ ε)) (channel : Channel) : Prop where
  states : channel.Holds (State.OwedWithin count)
  drafts : ∀ step ∈ steps, ∀ draft, step.answer = .proposed draft → draft.Bounded count

theorem OwesWithin.after {operations : List (Adjudicator ρ ε × Operation)}
    {earlier later : List (Step ρ ε)} {step : Step ρ ε}
    (hrun : channel.run operations = earlier ++ step :: later)
    (hsigns : SignsNegotiated (channel.run operations))
    (hmembers : step.before.lastState.participants.length = count)
    (h : OwesWithin count earlier step.before) :
    OwesWithin count (earlier ++ [step]) step.after := by
  have hmem : step ∈ channel.run operations := hrun ▸ List.mem_append_cons_self
  constructor
  · refine h.states.after ignoresTurn_owedWithin hmem fun draft key sig hoperation _ => ?_
    obtain ⟨hsize, proposing, hproposing, base, hproposed, hnegotiated⟩ :=
      hsigns earlier step later hrun draft key hoperation
    exact ((h.drafts proposing hproposing base hproposed).negotiated hnegotiated).agreed hsize
  · intro proposing hproposing draft hproposed
    rcases List.mem_append.mp hproposing with hearlier | hlast
    · exact h.drafts proposing hearlier draft hproposed
    · rw [List.mem_singleton.mp hlast] at hproposed
      exact (effect_of_answer hmem hproposed).proposes.bounded hmembers h.states.last

theorem length_lastState_of_mem_run (h : Reachable channel)
    {operations : List (Adjudicator ρ ε × Operation)} {step : Step ρ ε}
    (hmem : step ∈ channel.run operations) :
    step.before.lastState.participants.length = channel.participants.length := by
  have hbefore := (reachable_of_mem_run h hmem).1
  rw [← (sameTerms_of_mem_run hmem).1.participants_eq, hbefore.sound.length_participants]
  exact congrArg (fun fixed => fixed.participants.length) hbefore.lastState_fixed

/-- If the proposal was put together and only drafts are signed that the channel handed out and that
were negotiated since, then in every state that the channel ever holds only members owe each
other. -/
theorem only_members_owe_each_other {opening : Opening} {partIndex : UInt64} {config : Config}
    (hbuilt : opening.Built) (h : create opening partIndex config = .ok channel)
    (operations : List (Adjudicator ρ ε × Operation))
    (hsigns : SignsNegotiated (channel.run operations)) :
    channel.Holds (State.OwedWithin channel.participants.length) ∧
    ∀ step ∈ channel.run operations,
      step.after.Holds (State.OwedWithin channel.participants.length) := by
  have hstate : opening.state.OwedWithin channel.participants.length := by
    refine ⟨.empty, ?_, Ledger.within_empty⟩
    rw [hbuilt.composed.appData]
    rfl
  have hbegin := holds_create h ignoresTurn_owedWithin hstate
  refine ⟨hbegin, fun step hmem => ?_⟩
  obtain ⟨earlier, later, hrun⟩ := List.append_of_mem hmem
  refine (forall_history_of_kept (P := OwesWithin channel.participants.length)
    ⟨hbegin, fun _ hnone => absurd hnone List.not_mem_nil⟩
    (fun earlier step later hrun hbefore => hbefore.after hrun hsigns ?_)
    earlier step later hrun).2.states
  have hmem : step ∈ channel.run operations := hrun ▸ List.mem_append_cons_self
  exact length_lastState_of_mem_run (.create h) hmem

/-! ## Two members -/

theorem negotiated_duoAgreed : duoDraft.Negotiated duoAgreed :=
  .change .approve (.change (.acknowledge ⟨0, 1⟩ "USD" 5) (.change (.request ⟨0, 1⟩ "USD" 5) .start
    nofun) nofun) nofun

theorem signsNegotiated_duo : SignsNegotiated (duo.run duoOperations) := by
  intro earlier step later hrun draft key hoperation
  have hproposed : duoProposing.answer = .proposed duoDraft := by decide +kernel
  rw [run_duoOperations] at hrun
  -- Only the third of the four steps signs a draft.
  rcases earlier with _ | ⟨first, _ | ⟨second, _ | ⟨third, earlier⟩⟩⟩
  · obtain ⟨rfl, -⟩ := List.cons.inj hrun
    rw [(step_fields _ _ _).2] at hoperation
    cases hoperation
  · obtain ⟨rfl, -⟩ := List.cons.inj (List.cons.inj hrun).2
    rw [duoProposing, (step_fields _ _ _).2] at hoperation
    cases hoperation
  · obtain ⟨rfl, hrest⟩ := List.cons.inj (List.cons.inj hrun).2
    obtain ⟨rfl, -⟩ := List.cons.inj hrest
    rw [duoAgreeing, (step_fields _ _ _).2] at hoperation
    obtain ⟨rfl, -⟩ := Operation.signState.inj hoperation
    exact ⟨by decide +kernel, duoProposing, List.mem_cons_of_mem _ List.mem_cons_self, duoDraft,
      hproposed, negotiated_duoAgreed⟩
  · have hrest := (List.cons.inj (List.cons.inj (List.cons.inj hrun).2).2).2
    have hmem : step ∈ [duoAgreeing.after.step accepting .proposeState] := by
      rw [show [duoAgreeing.after.step accepting .proposeState] = earlier ++ step :: later from hrest]
      exact List.mem_append_right _ List.mem_cons_self
    rw [List.mem_singleton.mp hmem, (step_fields _ _ _).2] at hoperation
    cases hoperation

theorem duo_owe_each_other :
    duoOpening.Built ∧ create duoOpening 0 = .ok duo ∧ SignsNegotiated (duo.run duoOperations) ∧
    duoAgreeing.after.lastState = duoAgreed.state ∧
    duoAgreed.ledger.executed ⟨0, 1⟩ "USD" = 5 ∧ duoAgreed.state.OwedWithin 2 := by
  have hcreate : create duoOpening 0 = .ok duo := rfl
  obtain ⟨sig, -, hsigned, -⟩ := signed_duoAgreeing
  have hlast : duoAgreeing.after.lastState = duoAgreed.state := by
    rw [duoAgreeing] at hsigned ⊢
    exact lastState_of_signState hsigned
  have hmem : duoAgreeing ∈ duo.run duoOperations := by
    rw [run_duoOperations]
    exact List.mem_append_right _ List.mem_cons_self
  have howed := ((only_members_owe_each_other built_duoOpening hcreate duoOperations
    signsNegotiated_duo).2 duoAgreeing hmem).last
  rw [hlast] at howed
  exact ⟨built_duoOpening, hcreate, signsNegotiated_duo, hlast, by decide +kernel, howed⟩

end Channel

end DebtChannel
