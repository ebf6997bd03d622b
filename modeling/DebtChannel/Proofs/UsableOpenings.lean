import DebtChannel.Proofs.BuiltOpenings

/-!
# Which proposals begin a channel

Before a channel is created its proposal is looked at from four sides: the state has to be that of
turn zero, not final and well formed, and the members have to stand in their places. A proposal that
was put together passes all four. The lock step that `Composed` describes is just what they ask for,
with one thing more that the invariant does not give by itself: somebody has to take part. The
proposal before anyone has joined is composed as well, and no channel begins with it; but whoever
starts a proposal is its first participant, and nobody is ever taken out.

So there is nothing left on which the creation could fail but the place from which the channel is to
be seen.
-/

namespace DebtChannel

namespace Opening

variable {opening : Opening}

theorem InPlace.length_participants (h : opening.InPlace) :
    opening.state.participants.length = opening.participants.length := by
  rw [← Participant.map_address_of_inPlace h, List.length_map]

/-- Whoever starts a proposal stays its first participant. -/
theorem head?_participants_afterAll {chainId : Uint256} {contract : ContractRef}
    {initiator : Participant} {channelNonce : Uint256} {config : Config}
    (h : ofInitiator chainId contract initiator channelNonce config = .ok opening)
    (joining : List Participant) :
    (opening.afterAll joining).participants.head? = some initiator ∧
      (opening.afterAll joining).contract = contract := by
  refine afterAll_of_kept
    (P := fun opening => opening.participants.head? = some initiator ∧ opening.contract = contract)
    (fun {opening joined participant} hkept hok => ?_) joining ?_
  · obtain ⟨-, -, rfl⟩ := addParticipant_ok hok
    exact ⟨by simp [hkept.1], hkept.2⟩
  · obtain ⟨-, -, rfl⟩ := addParticipant_ok h
    exact ⟨rfl, rfl⟩

/-- Who asks to be taken in is taken in exactly if the account is new and the index is that of the
next place. -/
theorem InPlace.participants_after (h : opening.InPlace) (participant : Participant) :
    (opening.after participant).participants
      = if participant.address ∉ opening.state.participants ∧
            participant.index.toNat = opening.participants.length
        then opening.participants ++ [participant] else opening.participants := by
  have hknown : opening.participants.any (·.address == participant.address) = true
      ↔ participant.address ∈ opening.state.participants := by
    rw [← Participant.map_address_of_inPlace h]
    simp
  unfold after Opening.addParticipant
  by_cases hmember : participant.address ∈ opening.state.participants
  · rw [if_pos (hknown.mpr hmember), if_neg fun hboth => hboth.1 hmember]
  · rw [if_neg fun hany => hmember (hknown.mp hany)]
    by_cases hindex : participant.index.toNat = opening.participants.length
    · rw [if_neg fun hne => hne hindex, if_pos ⟨hmember, hindex⟩]
    · rw [if_pos hindex, if_neg fun hboth => hindex hboth.2]

theorem Composed.wellFormed (h : opening.Composed) (hsome : opening.participants ≠ []) :
    opening.state.WellFormed where
  participants := by
    rw [← Participant.map_address_of_inPlace h.places]
    exact fun hnone => hsome (List.map_eq_nil_iff.mp hnone)
  nodup := h.nodup
  outcome := by
    rw [h.outcome]
    exact List.cons_ne_nil _ _
  shares exit hexit := by
    rw [h.outcome, List.mem_singleton] at hexit
    rw [hexit, h.places.length_participants]
    exact List.length_map _

end Opening

namespace Channel

variable {opening : Opening} {partIndex : UInt64} {config : Config}

theorem initialDefect?_eq_none_iff :
    initialDefect? opening = none ↔
      opening.state.turn = 0 ∧ opening.state.isFinal = false ∧ opening.state.WellFormed ∧
        opening.InPlace := by
  constructor
  · intro h
    obtain ⟨hturn, hfinal, hdefect, hplaces⟩ := initialDefect?_eq_none h
    exact ⟨hturn, hfinal, State.defect?_eq_none_iff.mp hdefect, hplaces⟩
  · rintro ⟨hturn, hfinal, hstate, hplaces⟩
    have hplaces : Participant.inPlace 0 opening.participants opening.state.participants = true :=
      hplaces
    simp [initialDefect?, hturn, hfinal, State.defect?_eq_none_iff.mpr hstate, hplaces]

/-- What has to be true of a proposal to begin a channel. -/
theorem create_eq_ok_iff {channel : Channel} :
    create opening partIndex config = .ok channel ↔
      (opening.state.turn = 0 ∧ opening.state.isFinal = false ∧ opening.state.WellFormed ∧
        opening.InPlace) ∧
      partIndex.toNat < opening.participants.length ∧
      channel = ofOpening opening partIndex config.proposalPolicy := by
  constructor
  · intro h
    obtain ⟨hnone, hlt, heq⟩ := create_ok h
    exact ⟨initialDefect?_eq_none_iff.mp hnone, hlt, heq⟩
  · rintro ⟨hopening, hlt, rfl⟩
    simp only [create, initialDefect?_eq_none_iff.mpr hopening, if_pos hlt]

/-- A proposal that was put together lists its members in the order of their indices, the accounts
once each and as its state does, and its state is one to begin with, which gives every deposit back
to where its participant wants it. Its first member is who started it, and whoever asks is taken in
exactly if the account is new and the index is that of the next place. A channel can be created from
it for every place that it has, and for no other; the state after funding is then the state before
funding as turn one. -/
theorem put_together_proposals_are_usable {chainId : Uint256} {contract : ContractRef}
    {initiator : Participant} {channelNonce : Uint256} {config : Config} {start : Opening}
    (h : Opening.ofInitiator chainId contract initiator channelNonce config = .ok start)
    (joining : List Participant) :
    let opening := start.afterAll joining
    (∀ (index : Nat) (participant : Participant),
      opening.participants[index]? = some participant → participant.index.toNat = index) ∧
    opening.state.participants = opening.participants.map Participant.address ∧
    opening.state.participants.Nodup ∧
    opening.contract = contract ∧
    opening.state.outcome = [⟨contract.asset, [],
      opening.participants.map fun participant =>
        .simple participant.destination participant.lockedAmount⟩] ∧
    opening.state.turn = 0 ∧ opening.state.isFinal = false ∧ opening.state.appData = [] ∧
    opening.participants.head? = some initiator ∧
    (∀ participant : Participant, (opening.after participant).participants
      = if participant.address ∉ opening.state.participants ∧
            participant.index.toNat = opening.participants.length
        then opening.participants ++ [participant] else opening.participants) ∧
    ∀ (partIndex : UInt64) (config : Config),
      (partIndex.toNat < opening.participants.length →
        ∃ channel, create opening partIndex config = .ok channel ∧
          channel.turns.preFund.state = opening.state ∧
          channel.turns.postFund.state = { opening.state with turn := 1 }) ∧
      (opening.participants.length ≤ partIndex.toNat →
        create opening partIndex config = .error (.indexOutOfRange partIndex)) := by
  intro opening
  have hcomposed : opening.Composed := ((Opening.Built.ofInitiator h).afterAll joining).composed
  obtain ⟨hhead, hcontract⟩ := Opening.head?_participants_afterAll h joining
  have hsome : opening.participants ≠ [] := by
    intro hnone
    have hhead : opening.participants.head? = some initiator := hhead
    rw [hnone] at hhead
    cases hhead
  refine ⟨fun index participant hplace => ?_,
    (Participant.map_address_of_inPlace hcomposed.places).symm, hcomposed.nodup, hcontract, ?_,
    hcomposed.turn, hcomposed.isFinal, hcomposed.appData, hhead,
    hcomposed.places.participants_after, fun partIndex config => ⟨fun hlt => ?_, fun hge => ?_⟩⟩
  · rw [Participant.toNat_index_of_inPlace hcomposed.places hplace, Nat.zero_add]
  · rw [← hcontract]
    exact hcomposed.outcome
  · exact ⟨_, create_eq_ok_iff.mpr ⟨⟨hcomposed.turn, hcomposed.isFinal,
      hcomposed.wellFormed hsome, hcomposed.places⟩, hlt, rfl⟩, rfl, rfl⟩
  · have hnone : initialDefect? opening = none :=
      initialDefect?_eq_none_iff.mpr
        ⟨hcomposed.turn, hcomposed.isFinal, hcomposed.wellFormed hsome, hcomposed.places⟩
    simp only [create, hnone, if_neg (Nat.not_lt.mpr hge)]

/-- The first member asks once more, the second asks for the wrong place and then for the right one.
In the end there are two places. -/
theorem duo_is_put_together :
    let first := duoOpening.participants[0]
    let second := duoOpening.participants[1]
    let joining := [first, { second with index := 2 }, second, second]
    Opening.ofInitiator 1 duoOpening.contract first 7 {} = .ok soloOpening ∧
    soloOpening.afterAll joining = duoOpening ∧
    (∃ channel, create duoOpening 1 = .ok channel ∧
      channel.turns.preFund.state = duoOpening.state ∧
      channel.turns.postFund.state = { duoOpening.state with turn := 1 }) ∧
    create duoOpening 2 = .error (.indexOutOfRange 2) := by
  intro first second joining
  have hstart : Opening.ofInitiator 1 duoOpening.contract first 7 {} = .ok soloOpening := rfl
  have hend : soloOpening.afterAll joining = duoOpening := rfl
  obtain ⟨-, -, -, -, -, -, -, -, -, -, hcreate⟩ := put_together_proposals_are_usable hstart joining
  rw [hend] at hcreate
  exact ⟨hstart, hend, (hcreate 1 {}).1 (by decide), (hcreate 2 {}).2 (by decide)⟩

end Channel

end DebtChannel
