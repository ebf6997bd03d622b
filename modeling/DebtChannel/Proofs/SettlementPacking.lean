import DebtChannel.Proofs.TurnCounters

/-!
# A settlement carries the signatures on record

A settlement is put together from two sides. The final state says who the participants are and in
which order; the signatures come as a map from accounts, which was read out of the slots of a turn.
So what stands at a place of the settlement has gone from a slot to an account and from the account
to a place again, and nothing on the way looks whether the state that gave the slots is the one
that gives the places.

It is, as far as it matters here. A final last state is on record under its own hash (`Ordered`),
and it has the participants of the channel like every state on record, because no state becomes the
last one without the fixed part of the channel (`Reachable.lastState_fixed`). Hence the place of a
participant holds what its slot holds, or the zero signature if that is empty. The two cannot be
confused: the zero signature leads to no signer, since its last byte is neither 27 nor 28, while
every signature on record does.
-/

namespace DebtChannel

/-- The zero signature is nobody's. -/
theorem Signature.isZero_eq_false_of_recoverSigner {sig : Signature} {hash : Hash}
    {account : Address} (h : sig.recoverSigner hash = .ok account) : sig.isZero = false := by
  by_cases hzero : sig = zero
  · have hparity : zero.parity = .error (.invalidRecoveryId 0) := rfl
    rw [hzero, recoverSigner, hparity] at h
    cases h
  · exact beq_false_of_ne hzero

/-! ## Places -/

/-- The places of the elements of a kind, where the place alone tells the kind. -/
theorem filterMap_zipIdx_eq_filter {α : Type} {p : α → Bool} {q : Nat → Bool} :
    ∀ {values : List α} {start : Nat},
      (∀ index value, values[index]? = some value → p value = q (start + index)) →
      (values.zipIdx start).filterMap (fun (value, index) => if p value then some index else none)
        = (List.range' start values.length).filter q := by
  intro values
  induction values with
  | nil => intro start _; rfl
  | cons value values ih =>
      intro start h
      have hfirst : p value = q start := h 0 value rfl
      have hrest := @ih (start + 1) fun index other hother => by
        rw [h (index + 1) other hother]
        congr 1
        omega
      rw [List.zipIdx_cons, List.filterMap_cons, hrest, List.length_cons, List.range'_succ,
        List.filter_cons]
      simp only [hfirst]
      cases q start <;> rfl

namespace Settlement

theorem ofState_of_isFinal {state : State} (signatures : Signatures) (h : state.isFinal = true) :
    ∃ settlement, ofState state signatures = .ok settlement ∧
      settlement.signatures
        = state.participants.map fun account => signatures.getD account .zero := by
  rw [ofState, if_pos h]
  exact ⟨_, rfl, rfl⟩

theorem missingSigners_eq_filter {settlement : Settlement} {missing : Nat → Bool}
    (h : ∀ index sig, settlement.signatures[index]? = some sig → sig.isZero = missing index) :
    settlement.missingSigners
      = (List.range settlement.signatures.length).filter missing := by
  rw [missingSigners, List.range_eq_range']
  refine filterMap_zipIdx_eq_filter fun index sig hsig => ?_
  rw [Nat.zero_add]
  exact h index sig hsig

end Settlement

namespace Channel

/-! ## What is packed -/

section Packed

variable {channel : Channel} {turn : UInt64} {entry : SignedTurn} {settlement : Settlement}

/-- The place of a participant holds what its slot holds. -/
theorem Sound.getElem?_packed (h : channel.Sound) (hentry : channel.signedTurn? turn = some entry)
    {state : State} (hfixed : state.toFixedPart = channel.fixed)
    (hpacked : settlement.signatures
      = state.participants.map fun account => entry.signatures.getD account .zero) (index : Nat) :
    settlement.signatures[index]?
      = (channel.participants[index]?).map fun _ => (entry.signatureOf? index).getD .zero := by
  rw [hpacked, List.getElem?_map, hfixed, h.getElem?_accounts]
  cases hplace : channel.participants[index]? with
  | none => rfl
  | some participant =>
      rw [Option.map_some, Option.map_some, Option.map_some, Std.ExtTreeMap.getD_eq_getD_getElem?,
        h.getElem?_signatures hentry hplace]

/-- Only an empty slot is packed as the zero signature. -/
theorem Sound.isZero_getD (h : channel.Sound) (hentry : channel.signedTurn? turn = some entry)
    (index : Nat) :
    ((entry.signatureOf? index).getD .zero).isZero = (entry.signatureOf? index).isNone := by
  cases hslot : entry.signatureOf? index with
  | none => rfl
  | some sig =>
      obtain ⟨participant, -, hrecover⟩ := h.recovers hentry hslot
      exact Signature.isZero_eq_false_of_recoverSigner hrecover

theorem Sound.filter_isNone_eq_nil_iff (h : channel.Sound)
    (hentry : channel.signedTurn? turn = some entry) :
    (List.range channel.participants.length).filter
        (fun index => (entry.signatureOf? index).isNone) = [] ↔ channel.isSupported turn = true := by
  have hslots : entry.slots.length = channel.participants.length := by
    rw [(h.entries turn entry hentry).length_slots, h.length_participants]
  rw [isSupported_eq_any, hentry, Option.any_some, SignedTurn.isComplete_iff_isSome, hslots,
    List.filter_eq_nil_iff]
  simp only [List.mem_range, Bool.not_eq_true, Option.isNone_eq_false_iff]

end Packed

/-- At any time a channel with a final last state can be settled with the signatures on record for
its turn. The settlement has a place for every participant, which holds the signature on record or
else the zero signature; its missing signers are the participants with empty slots, in order, so
that none is missing exactly if the turn is supported; and every other signature in it leads to the
participant of its place. -/
theorem settlement_packs_record {channel : Channel} (h : Reachable channel)
    (hfinal : channel.lastState.isFinal = true) :
    ∃ entry settlement, channel.signedTurn? channel.lastState.turn = some entry ∧
      channel.signaturesFor? channel.lastState.turn = some entry.signatures ∧
      Settlement.ofState channel.lastState entry.signatures = .ok settlement ∧
      settlement.signatures.length = channel.participants.length ∧
      settlement.missingSigners
        = (List.range channel.participants.length).filter
            (fun index => (entry.signatureOf? index).isNone) ∧
      (settlement.missingSigners = [] ↔ channel.isSupported channel.lastState.turn = true) ∧
      (∀ index sig, entry.signatureOf? index = some sig →
        settlement.signatures[index]? = some sig) ∧
      (∀ (index : Nat) (sig : Signature), settlement.signatures[index]? = some sig → sig ≠ .zero →
        ∃ participant, channel.participants[index]? = some participant ∧
          sig.recoverSigner channel.lastState.hash = .ok participant.address) := by
  have hsound := h.sound
  obtain ⟨entry, hentry, hhash, -⟩ := h.ordered.final hfinal
  obtain ⟨settlement, hmade, hsignatures⟩ := Settlement.ofState_of_isFinal entry.signatures hfinal
  have hpacked := hsound.getElem?_packed hentry h.lastState_fixed hsignatures
  have hlength : settlement.signatures.length = channel.participants.length := by
    rw [hsignatures, List.length_map, hsound.length_participants, h.lastState_fixed]
  have hmissing : settlement.missingSigners
      = (List.range channel.participants.length).filter
          (fun index => (entry.signatureOf? index).isNone) := by
    rw [← hlength]
    refine Settlement.missingSigners_eq_filter fun index sig hsig => ?_
    rw [hpacked, Option.map_eq_some_iff] at hsig
    obtain ⟨participant, -, rfl⟩ := hsig
    exact hsound.isZero_getD hentry index
  refine ⟨entry, settlement, hentry, by rw [signaturesFor?, hentry]; rfl, hmade, hlength, hmissing,
    ?_, fun index sig hslot => ?_, fun index sig hsig hne => ?_⟩
  · rw [hmissing]
    exact hsound.filter_isNone_eq_nil_iff hentry
  · obtain ⟨participant, hplace, -⟩ := hsound.recovers hentry hslot
    rw [hpacked, hplace, hslot]
    rfl
  · rw [hpacked, Option.map_eq_some_iff] at hsig
    obtain ⟨-, -, rfl⟩ := hsig
    cases hslot : entry.signatureOf? index with
    | none =>
        rw [hslot] at hne
        exact absurd rfl hne
    | some sig =>
        rw [← hhash]
        exact hsound.recovers hentry hslot

/-- With one signature missing the settlement can be made, and it says whose signature that is. -/
theorem halfSigned_packs_record :
    Reachable halfSigned.after ∧ halfSigned.after.lastState.isFinal = true ∧
    ∃ signatures settlement, halfSigned.after.signaturesFor? 2 = some signatures ∧
      Settlement.ofState halfSigned.after.lastState signatures = .ok settlement ∧
      settlement.missingSigners = [1] ∧ halfSigned.after.isSupported 2 = false := by
  obtain ⟨hlast, hcount, half, sig, hhalf, hslots⟩ := halfSigned_slots
  have hfinal : halfSigned.after.lastState.isFinal = true := by rw [hlast]; rfl
  have hturn : halfSigned.after.lastState.turn = 2 := by rw [hlast]; rfl
  obtain ⟨entry, settlement, hentry, hsignatures, hmade, -, hmissing, hnone, -⟩ :=
    settlement_packs_record reachable_halfSigned hfinal
  rw [hturn] at hentry hsignatures hnone
  obtain rfl := Option.some.inj (hentry.symm.trans hhalf)
  have hone : settlement.missingSigners = [1] := by
    simp only [hmissing, hcount, SignedTurn.signatureOf?, hslots]
    rfl
  refine ⟨reachable_halfSigned, hfinal, entry.signatures, settlement, hsignatures, hmade, hone, ?_⟩
  rw [← Bool.not_eq_true, ← hnone, hone]
  exact List.cons_ne_nil _ _

end Channel

end DebtChannel
