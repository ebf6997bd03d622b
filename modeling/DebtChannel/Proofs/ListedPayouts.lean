import DebtChannel.Proofs.OpeningCodec
import DebtChannel.Proofs.UsableOpenings

/-!
# Whom a proposal pays

The members of a proposal are listed with their deposits and with the place where their money goes
in the end, and the state of turn zero says what everyone gets. Taking somebody in writes both, so
the state gives every deposit back, in the asset of the contract. But the state comes along when a
proposal is received, and it is not compared with the list. Reading looks at the indices and the
accounts of the members. Creating the channel looks at them again and then at the shape of the
outcome: that there is an exit, and that each has as many shares as there are members. What the
shares are, where they go and of which asset they are is never looked at.

So of the outcome of an accepted proposal its shape is all that is known, and any outcome of that
shape would have been accepted in its place, with any contracts.
-/

namespace DebtChannel

namespace Opening

variable {opening : Opening}

/-- In every asset each member gets back its deposit, at its destination, and the only asset is the
one that is deposited. -/
structure PaysListed (opening : Opening) : Prop where
  shares : ∀ exit ∈ opening.state.outcome, ∀ (index : Nat) (participant : Participant),
    opening.participants[index]? = some participant →
    ∃ share : Allocation, exit.allocations[index]? = some share ∧
      share.destination = participant.destination ∧ share.amount = participant.lockedAmount
  assets : opening.state.outcome.map Exit.asset = [opening.contract.asset]

theorem Composed.paysListed (h : opening.Composed) : opening.PaysListed := by
  refine ⟨fun exit hexit index participant hplace => ?_, by rw [h.outcome]; rfl⟩
  rw [h.outcome, List.mem_singleton] at hexit
  refine ⟨depositOf participant, ?_, rfl, rfl⟩
  rw [hexit, List.getElem?_map, hplace, Option.map_some]

/-- Every asset has as many shares as there are members. -/
structure Shaped (opening : Opening) : Prop where
  outcome : opening.state.outcome ≠ []
  shares : ∀ exit ∈ opening.state.outcome, exit.allocations.length = opening.participants.length

/-- The proposal with other contracts, and with an outcome that pays differently. -/
def paying (opening : Opening) (contract : ContractRef) (outcome : Outcome) : Opening :=
  { opening with contract, state := { opening.state with outcome } }

theorem InPlace.paying (h : opening.InPlace) (contract : ContractRef) (outcome : Outcome) :
    (opening.paying contract outcome).InPlace := h

end Opening

namespace Channel

variable {opening : Opening} {partIndex : UInt64} {config : Config}

/-- With other contracts and another outcome the proposal is accepted if the outcome has the shape. -/
theorem exists_create_paying_iff {channel : Channel}
    (h : create opening partIndex config = .ok channel) (contract : ContractRef)
    (outcome : Outcome) :
    (∃ made, create (opening.paying contract outcome) partIndex config = .ok made) ↔
      (opening.paying contract outcome).Shaped := by
  obtain ⟨⟨hturn, hfinal, hstate, hplaces⟩, hlt, -⟩ := create_eq_ok_iff.mp h
  have hcount := hplaces.length_participants
  constructor
  · rintro ⟨made, hmade⟩
    obtain ⟨⟨-, -, hother, -⟩, -⟩ := create_eq_ok_iff.mp hmade
    exact ⟨hother.outcome, fun exit hexit => (hother.shares exit hexit).trans hcount⟩
  · intro hshaped
    have hother : (opening.paying contract outcome).state.WellFormed :=
      ⟨hstate.participants, hstate.nodup, hshaped.outcome,
        fun exit hexit => (hshaped.shares exit hexit).trans hcount.symm⟩
    exact ⟨_, create_eq_ok_iff.mpr
      ⟨⟨hturn, hfinal, hother, hplaces.paying contract outcome⟩, hlt, rfl⟩⟩

/-- An accepted proposal lists its members twice and alike, and shares every asset out among as
many; if it was put together, it pays them as they are listed. But whether a proposal is accepted,
and whether it can be received, does not depend on what it pays to whom, or in which assets: with
any other contracts it would be accepted just the same, and with any other outcome as long as every
asset has as many shares as there are members. -/
theorem acceptance_looks_at_the_shape_of_payouts {channel : Channel}
    (h : create opening partIndex config = .ok channel) :
    (opening.Built → opening.PaysListed) ∧
    (opening.participants.map Participant.address = opening.state.participants ∧
      opening.state.participants.Nodup ∧ opening.Shaped) ∧
    ∀ (contract : ContractRef) (outcome : Outcome),
      ((∃ made, create (opening.paying contract outcome) partIndex config = .ok made) ↔
        (opening.paying contract outcome).Shaped) ∧
      ((opening.paying contract outcome).encode.length < UInt64.size →
        Opening.decode (opening.paying contract outcome).encode
          = .ok (opening.paying contract outcome)) := by
  obtain ⟨⟨-, -, hstate, hplaces⟩, -⟩ := create_eq_ok_iff.mp h
  have hshaped : opening.Shaped := by
    refine ⟨hstate.outcome, fun exit hexit => ?_⟩
    rw [hstate.shares exit hexit, hplaces.length_participants]
  exact ⟨fun hbuilt => hbuilt.composed.paysListed,
    ⟨Participant.map_address_of_inPlace hplaces, hstate.nodup, hshaped⟩,
    fun contract outcome => ⟨exists_create_paying_iff h contract outcome,
      (hplaces.paying contract outcome).decode_encode⟩⟩

/-! ## A proposal that pays one member only -/

/-- A proposal of two members, whose first gets all that they deposit. -/
def duoTaking : Opening :=
  let shares := duoOpening.participants.zipWith
    (fun participant amount => .simple participant.destination amount) [200, 0]
  duoOpening.paying duoOpening.contract [⟨.zero, [], shares⟩]

theorem not_paysListed_duoTaking : ¬ duoTaking.PaysListed := by
  intro hlisted
  obtain ⟨share, hshare, -, hamount⟩ :=
    hlisted.shares _ List.mem_cons_self 1 duoOpening.participants[1] rfl
  obtain rfl := Option.some.inj hshare
  exact absurd hamount (by decide)

/-- It can be received, and the channel is created. -/
theorem unlisted_payout_is_accepted :
    ∃ (bytes : Bytes) (opening : Opening), Opening.decode bytes = .ok opening ∧
      (∃ channel, create opening 1 = .ok channel) ∧ ¬ opening.PaysListed := by
  have hplaces : duoTaking.InPlace := rfl
  exact ⟨duoTaking.encode, duoTaking, hplaces.decode_encode (by decide +kernel), ⟨_, rfl⟩,
    not_paysListed_duoTaking⟩

/-- What was put together pays as it lists; with other shares it would be accepted as well. -/
theorem duo_pays_listed :
    duoOpening.Built ∧ create duoOpening 1 = .ok (ofOpening duoOpening 1 .allowOutstanding) ∧
    duoOpening.PaysListed ∧ (∃ made, create duoTaking 1 = .ok made) := by
  have hcreate : create duoOpening 1 = .ok (ofOpening duoOpening 1 .allowOutstanding) := rfl
  obtain ⟨hlisted, -, hany⟩ := acceptance_looks_at_the_shape_of_payouts hcreate
  have hshaped : duoTaking.Shaped := by
    refine ⟨List.cons_ne_nil _ _, fun exit hexit => ?_⟩
    obtain rfl := List.mem_singleton.mp hexit
    rfl
  obtain ⟨hiff, -⟩ := hany duoOpening.contract duoTaking.state.outcome
  exact ⟨built_duoOpening, hcreate, hlisted built_duoOpening, hiff.mpr hshaped⟩

end Channel

end DebtChannel
