import DebtChannel.Proofs.SettlementPacking

/-!
# Proposals that were put together

A proposal says most things twice. Its participants stand in the list of the members, with their
deposits and destinations, and again in the state of turn zero, once with their accounts and once
with their shares. Taking somebody in appends to all three, so a proposal that was put together by
taking in one participant after the other agrees with itself. `Composed` is that agreement; it holds
of the proposal before anyone has joined, and whoever is refused leaves no proposal behind.
-/

namespace DebtChannel

/-- Who stands in place keeps it when one more is appended in the next one. -/
theorem Participant.inPlace_concat {participant : Participant} :
    ∀ {participants : List Participant} {accounts : List Address} {start : Nat},
      inPlace start participants accounts = true →
      participant.index.toNat = start + participants.length →
      inPlace start (participants ++ [participant]) (accounts ++ [participant.address]) = true := by
  intro participants
  induction participants with
  | nil =>
      intro accounts start h hindex
      cases accounts with
      | nil => simp [inPlace, hindex]
      | cons account accounts => cases h
  | cons first participants ih =>
      intro accounts start h hindex
      cases accounts with
      | nil => cases h
      | cons account accounts =>
          rw [inPlace, Bool.and_eq_true] at h
          rw [List.length_cons] at hindex
          rw [List.cons_append, List.cons_append, inPlace, h.1, Bool.true_and]
          exact ih h.2 (by omega)

theorem Participant.toNat_index_of_inPlace {participant : Participant} :
    ∀ {participants : List Participant} {accounts : List Address} {start index : Nat},
      inPlace start participants accounts = true → participants[index]? = some participant →
      participant.index.toNat = start + index := by
  intro participants
  induction participants with
  | nil => intro accounts start index _ hplace; cases hplace
  | cons first participants ih =>
      intro accounts start index h hplace
      cases accounts with
      | nil => cases h
      | cons account accounts =>
          rw [inPlace, Bool.and_eq_true, Bool.and_eq_true] at h
          obtain ⟨⟨hfirst, -⟩, hrest⟩ := h
          cases index with
          | zero =>
              obtain rfl := Option.some.inj hplace
              exact eq_of_beq hfirst
          | succ index =>
              rw [ih hrest hplace]
              omega

namespace Opening

/-- The proposal was put together: by its first participant, and then by taking in others. Who is
refused leaves it as it is. -/
inductive Built : Opening → Prop where
  | ofInitiator {chainId : Uint256} {contract : ContractRef} {initiator : Participant}
      {channelNonce : Uint256} {config : Config} {opening : Opening}
      (h : Opening.ofInitiator chainId contract initiator channelNonce config = .ok opening) :
      Built opening
  | addParticipant {opening joined : Opening} {participant : Participant} (hbuilt : Built opening)
      (h : opening.addParticipant participant = .ok joined) : Built joined

/-- The share of a participant when nothing has been owed yet: the deposit, given back. -/
def depositOf (participant : Participant) : Allocation :=
  .simple participant.destination participant.lockedAmount

/-- Each member stands in the place that the state gives it. -/
def InPlace (opening : Opening) : Prop :=
  Participant.inPlace 0 opening.participants opening.state.participants = true

/-- The parts of a proposal agree, and its state is one to begin with. -/
structure Composed (opening : Opening) : Prop where
  places : opening.InPlace
  nodup : opening.state.participants.Nodup
  outcome : opening.state.outcome
    = [⟨opening.contract.asset, [], opening.participants.map depositOf⟩]
  turn : opening.state.turn = 0
  isFinal : opening.state.isFinal = false
  appData : opening.state.appData = []

theorem composed_start (chainId : Uint256) (contract : ContractRef) (channelNonce : Uint256)
    (config : Config) : (start chainId contract channelNonce config).Composed :=
  ⟨rfl, List.nodup_nil, rfl, rfl, rfl, rfl⟩

theorem addParticipant_ok {opening joined : Opening} {participant : Participant}
    (h : opening.addParticipant participant = .ok joined) :
    (∀ member ∈ opening.participants, member.address ≠ participant.address) ∧
      participant.index.toNat = opening.participants.length ∧
      joined = { opening with
        participants := opening.participants ++ [participant]
        state := { opening.state with
          participants := opening.state.participants ++ [participant.address]
          outcome := opening.state.outcome.map fun exit =>
            { exit with allocations := exit.allocations ++ [depositOf participant] } } } := by
  unfold addParticipant at h
  split at h
  · cases h
  · next hnew =>
      split at h
      · cases h
      · next hindex => exact ⟨by simpa using hnew, by simpa using hindex, (Except.ok.inj h).symm⟩

theorem InPlace.addParticipant {opening joined : Opening} {participant : Participant}
    (h : opening.InPlace) (hok : opening.addParticipant participant = .ok joined) :
    joined.InPlace := by
  obtain ⟨-, hindex, rfl⟩ := addParticipant_ok hok
  exact Participant.inPlace_concat h (by omega)

theorem Composed.addParticipant {opening joined : Opening} {participant : Participant}
    (h : opening.Composed) (hok : opening.addParticipant participant = .ok joined) :
    joined.Composed := by
  have hplaces := h.places.addParticipant hok
  obtain ⟨hnew, -, rfl⟩ := addParticipant_ok hok
  refine ⟨hplaces, ?_, ?_, h.turn, h.isFinal, h.appData⟩
  · have haccounts := Participant.map_address_of_inPlace h.places
    refine List.nodup_append.mpr ⟨h.nodup, List.pairwise_singleton _ _, ?_⟩
    intro account hmem other hother
    obtain ⟨member, hmember, rfl⟩ := List.mem_map.mp (haccounts ▸ hmem)
    rw [List.mem_singleton.mp hother]
    exact hnew member hmember
  · show opening.state.outcome.map _ = _
    rw [h.outcome, List.map_singleton, List.map_append, List.map_singleton]

theorem Built.composed {opening : Opening} (h : opening.Built) : opening.Composed := by
  induction h with
  | ofInitiator h => exact (composed_start _ _ _ _).addParticipant h
  | addParticipant _ h ih => exact ih.addParticipant h

/-! ## One request after the other -/

/-- What is kept whenever somebody is taken in is kept by any requests, the refused ones included. -/
theorem afterAll_of_kept {P : Opening → Prop}
    (hkept : ∀ {opening joined : Opening} {participant : Participant}, P opening →
      opening.addParticipant participant = .ok joined → P joined) :
    ∀ (participants : List Participant) {opening : Opening}, P opening →
      P (opening.afterAll participants) := by
  intro participants
  induction participants with
  | nil => intro opening h; exact h
  | cons participant participants ih =>
      intro opening h
      have hafter : P (opening.after participant) := by
        unfold after
        split
        · next joined hok => exact hkept h hok
        · exact h
      exact ih hafter

theorem Built.afterAll {opening : Opening} (h : opening.Built) (participants : List Participant) :
    (opening.afterAll participants).Built :=
  afterAll_of_kept (P := Built) Built.addParticipant participants h

theorem InPlace.afterAll {opening : Opening} (h : opening.InPlace)
    (participants : List Participant) : (opening.afterAll participants).InPlace :=
  afterAll_of_kept (P := InPlace) InPlace.addParticipant participants h

end Opening

theorem Channel.built_duoOpening : duoOpening.Built := by
  have hsolo : soloOpening.Built :=
    @Opening.Built.ofInitiator 1 soloOpening.contract soloOpening.participants[0] 7 {} _ rfl
  exact @Opening.Built.addParticipant _ _ duoOpening.participants[1] hsolo rfl

end DebtChannel
