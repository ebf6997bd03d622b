import DebtChannel.Proofs.SettlementPacking
import DebtChannel.Proofs.StateBinding

/-!
# What a settlement takes from the signatures

Signatures are kept by account, in the order of the accounts, and a settlement has them by place, in
the order of the participants. If the two orders were mixed up, nobody would notice before the
adjudicator pays nothing. So the places are looked at here one by one, for any state and any
signatures: place `i` asks the map for participant `i` and for nobody else, and that is all the map
is asked for. What it holds for strangers cannot matter, and the settlement is the same for any two
maps that agree on the participants.

The outcome goes along as bytes. It is encoded as a value that the encoder might refuse; it refuses
none (`Outcome.encode?_eq_ok`), so a settlement fails only for a state that is not final. And the
bytes are of one type for all outcomes, so they tell the outcomes apart.
-/

namespace DebtChannel

open Abi (Token Kind)

/-! ## The bytes of an outcome -/

namespace Outcome

/-- The bytes of an outcome as the encoder gives them. -/
def encode? (outcome : Outcome) : Except Abi.Error Bytes := (value outcome).toToken.map Token.encode

theorem encode?_eq_ok (outcome : Outcome) : encode? outcome = .ok (encode outcome) := by
  rw [encode?, value, Abi.Value.toToken_sequence_map Exit.toToken_value]
  rfl

/-- The type of the token of an outcome. -/
def kind : Kind := .array Exit.kind

theorem hasKind_token (outcome : Outcome) : (token outcome).HasKind kind := by
  rw [token, kind, Token.HasKind]
  exact haveKinds_map Exit.hasKind_token outcome

theorem encode_injective {a b : Outcome} (ha : (encode a).length < UInt64.size)
    (hb : (encode b).length < UInt64.size) (h : encode a = encode b) : a = b :=
  token_injective (Token.encode_injective (hasKind_token a) (hasKind_token b) (.inl (by decide))
    ha hb h)

end Outcome

/-! ## The zero signature, byte by byte -/

namespace Signature

theorem toBytes_injective {a b : Signature} (h : a.toBytes = b.toBytes) : a = b := by
  have hnumber : ∀ {x y : Uint256}, x.toBytes.toList = y.toBytes.toList → x = y := by
    intro x y hxy
    rw [← Uint256.ofBytes_toBytes x, hxy, Uint256.ofBytes_toBytes]
  obtain ⟨r, s, v⟩ := a
  obtain ⟨r', s', v'⟩ := b
  rw [toBytes, toBytes, FixedBytes.mk.injEq] at h
  obtain ⟨hnumbers, hv⟩ := List.append_inj' h (show [v].length = [v'].length from rfl)
  obtain ⟨hr, hs⟩ := List.append_inj hnumbers
    (by rw [FixedBytes.length_toList, FixedBytes.length_toList])
  rw [mk.injEq]
  exact ⟨hnumber hr, hnumber hs, (List.cons.inj hv).1⟩

/-- The zero signature is the one whose bytes are all zero. -/
theorem isZero_eq_isZero_toBytes (sig : Signature) : sig.isZero = sig.toBytes.isZero := by
  have hzero : zero.toBytes.toList = List.replicate 65 0 := by decide
  rw [Bool.eq_iff_iff, isZero, beq_iff_eq, FixedBytes.isZero, List.all_eq_true]
  constructor
  · rintro rfl byte hbyte
    rw [hzero] at hbyte
    exact beq_iff_eq.mpr (List.eq_of_mem_replicate hbyte)
  · intro hzeros
    refine toBytes_injective (FixedBytes.ext ?_)
    rw [hzero, List.eq_replicate_iff]
    exact ⟨sig.toBytes.length_toList, fun byte hbyte => eq_of_beq (hzeros byte hbyte)⟩

end Signature

/-! ## Places -/

namespace Settlement

/-- Why no settlement came out, where the outcome is handed to the encoder. -/
inductive Refusal where
  /-- There is none by this state. -/
  | state (cause : Error)
  /-- The outcome has no encoding. -/
  | encoding (cause : Abi.Error)

/-- The settlement by a state and signatures over it, with the bytes of the outcome as the encoder
gives them. -/
def ofState? (state : State) (signatures : Signatures) : Except Refusal Settlement := do
  let settlement ← (ofState state signatures).mapError .state
  let outcomeBytes ← (Outcome.encode? state.outcome).mapError .encoding
  .ok { settlement with outcomeBytes }

variable {state : State} {signatures : Signatures} {settlement : Settlement}

theorem ofState_eq_ok_iff : ofState state signatures = .ok settlement ↔
    state.isFinal = true ∧ settlement =
      { largestTurn := state.turn
        fixedPart := state.toFixedPart
        appData := state.appData
        outcomeBytes := Outcome.encode state.outcome
        numStates := 1
        whoSignedWhat := state.participants.map fun _ => 0
        signatures := state.participants.map fun account => signatures.getD account .zero } := by
  rw [ofState]
  split
  · next hfinal => rw [Except.ok.injEq, eq_comm, and_iff_right hfinal]
  · next hopen =>
      constructor
      · intro h
        cases h
      · intro h
        exact absurd h.1 hopen

theorem ofState_eq_error_iff {cause : Error} :
    ofState state signatures = .error cause ↔
      state.isFinal = false ∧ cause = .notFinalState state.turn := by
  rw [ofState]
  split
  · next hfinal =>
      constructor
      · intro h
        cases h
      · intro h
        exact absurd (hfinal.symm.trans h.1) (by decide)
  · next hopen =>
      rw [Except.error.injEq, eq_comm, and_iff_right (Bool.eq_false_iff.mpr hopen)]

theorem ofState?_eq_mapError (state : State) (signatures : Signatures) :
    ofState? state signatures = (ofState state signatures).mapError .state := by
  rw [ofState?, Outcome.encode?_eq_ok]
  cases h : ofState state signatures with
  | error cause => rfl
  | ok settlement =>
      obtain ⟨-, rfl⟩ := ofState_eq_ok_iff.mp h
      rfl

theorem ofState_congr {others : Signatures}
    (h : ∀ account ∈ state.participants, signatures[account]? = others[account]?) :
    ofState state signatures = ofState state others := by
  have hpacked : (state.participants.map fun account => signatures.getD account .zero)
      = state.participants.map fun account => others.getD account .zero := by
    refine List.map_congr_left fun account hmem => ?_
    rw [Std.ExtTreeMap.getD_eq_getD_getElem?, Std.ExtTreeMap.getD_eq_getD_getElem?, h account hmem]
  rw [ofState, ofState, hpacked]

/-- No signature has been given for the place, or one of zeros only. -/
def Unsigned (state : State) (signatures : Signatures) (index : Nat) : Prop :=
  ∃ account, state.participants[index]? = some account ∧
    ∀ sig, signatures[account]? = some sig → sig.toBytes.isZero = true

theorem isZero_getD_iff (signatures : Signatures) (account : Address) :
    (signatures[account]?.getD .zero).isZero = true ↔
      ∀ sig, signatures[account]? = some sig → sig.toBytes.isZero = true := by
  cases signatures[account]? with
  | none => exact ⟨fun _ => nofun, fun _ => rfl⟩
  | some sig =>
      rw [Option.getD_some, Signature.isZero_eq_isZero_toBytes]
      simp

theorem getElem?_signatures (h : ofState state signatures = .ok settlement) (index : Nat) :
    settlement.signatures[index]?
      = state.participants[index]?.map fun account => signatures[account]?.getD .zero := by
  obtain ⟨-, rfl⟩ := ofState_eq_ok_iff.mp h
  simp only [List.getElem?_map, Std.ExtTreeMap.getD_eq_getD_getElem?]

theorem outcomeBytes_eq (h : ofState state signatures = .ok settlement) :
    settlement.outcomeBytes = Outcome.encode state.outcome := by
  rw [(ofState_eq_ok_iff.mp h).2]

theorem length_signatures (h : ofState state signatures = .ok settlement) :
    settlement.signatures.length = state.participants.length ∧
      settlement.whoSignedWhat.length = state.participants.length := by
  obtain ⟨-, rfl⟩ := ofState_eq_ok_iff.mp h
  exact ⟨List.length_map _, List.length_map _⟩

theorem missingSigners_eq (h : ofState state signatures = .ok settlement) :
    settlement.missingSigners = (List.range state.participants.length).filter fun index =>
      (settlement.signatures[index]?).any Signature.isZero := by
  rw [← (length_signatures h).1]
  refine missingSigners_eq_filter fun index sig hsig => ?_
  rw [hsig, Option.any_some]

theorem mem_missingSigners_iff (h : ofState state signatures = .ok settlement) (index : Nat) :
    index ∈ settlement.missingSigners ↔ Unsigned state signatures index := by
  rw [missingSigners_eq h, List.mem_filter, List.mem_range, getElem?_signatures h, Option.any_map,
    Option.any_eq_true, Unsigned]
  simp only [isZero_getD_iff]
  constructor
  · exact fun hmem => hmem.2
  · rintro ⟨account, hplace, hzero⟩
    obtain ⟨hlt, -⟩ := List.getElem?_eq_some_iff.mp hplace
    exact ⟨hlt, account, hplace, hzero⟩

/-- A settlement by a state has a place for each participant and asks the signatures for nobody
else. Only a state that is not final gives none; the encoder never refuses an outcome. Every place
holds the signature of its participant, or the zero signature if there is none, the missing signers
are the places without a signature, in order, and the bytes of the outcome belong to no other
outcome. -/
theorem packing_is_positional (state : State) :
    (∀ signatures others : Signatures,
      (∀ account ∈ state.participants, signatures[account]? = others[account]?) →
      ofState state signatures = ofState state others) ∧
    (∀ signatures : Signatures,
      ofState? state signatures = (ofState state signatures).mapError .state ∧
      ∀ cause, ofState state signatures = .error cause ↔
        state.isFinal = false ∧ cause = .notFinalState state.turn) ∧
    (∀ (signatures : Signatures) (settlement : Settlement),
      ofState state signatures = .ok settlement →
      (settlement.signatures.length = state.participants.length ∧
        settlement.whoSignedWhat.length = state.participants.length) ∧
      (∀ index : Nat, settlement.signatures[index]?
        = state.participants[index]?.map fun account => signatures[account]?.getD .zero) ∧
      settlement.missingSigners.Pairwise (· < ·) ∧
      (∀ index, index ∈ settlement.missingSigners ↔ Unsigned state signatures index) ∧
      ∀ (other : State) (others : Signatures) (settlement' : Settlement),
        ofState other others = .ok settlement' →
        settlement.outcomeBytes.length < UInt64.size →
        settlement.outcomeBytes = settlement'.outcomeBytes → state.outcome = other.outcome) := by
  refine ⟨fun signatures others h => ofState_congr h, fun signatures =>
    ⟨ofState?_eq_mapError state signatures, fun cause => ofState_eq_error_iff⟩,
    fun signatures settlement h => ?_⟩
  refine ⟨length_signatures h, getElem?_signatures h, ?_, mem_missingSigners_iff h, ?_⟩
  · rw [missingSigners_eq h]
    exact List.pairwise_lt_range.filter _
  · intro other others settlement' h' hsize hbytes
    rw [outcomeBytes_eq h] at hsize hbytes
    rw [outcomeBytes_eq h'] at hbytes
    exact Outcome.encode_injective hsize (by rwa [← hbytes]) hbytes

/-- The last state of a channel of two, which shares out one asset. -/
def settledState : State := { State.sharedOut with isFinal := true }

/-- The second participant has signed, and the first only with zeros. -/
def halfOfThem : Signatures :=
  ((∅ : Signatures).insert ⟨FixedBytes.ofNat 20 1⟩ .zero).insert ⟨FixedBytes.ofNat 20 2⟩ ⟨5, 6, 27⟩

/-- Somebody else has signed as well. -/
def withStranger : Signatures := halfOfThem.insert ⟨FixedBytes.ofNat 20 3⟩ ⟨7, 8, 28⟩

/-- The signature of the stranger is left out, and the zeros count as none. -/
theorem packing_is_positional_withStranger :
    (∀ account ∈ settledState.participants, halfOfThem[account]? = withStranger[account]?) ∧
    halfOfThem ≠ withStranger ∧
    ofState settledState halfOfThem = ofState settledState withStranger ∧
    ∃ settlement, ofState settledState withStranger = .ok settlement ∧
      settlement.signatures[1]? = some ⟨5, 6, 27⟩ ∧
      0 ∈ settlement.missingSigners ∧ 1 ∉ settlement.missingSigners ∧
      settlement.outcomeBytes.length < UInt64.size ∧
      ∀ settlement', ofState { settledState with outcome := [] } withStranger = .ok settlement' →
        settlement.outcomeBytes ≠ settlement'.outcomeBytes := by
  have hagree : ∀ account ∈ settledState.participants,
      halfOfThem[account]? = withStranger[account]? := by
    decide
  have hdiffer : halfOfThem ≠ withStranger := by
    intro h
    have hstranger := congrArg (·[(⟨FixedBytes.ofNat 20 3⟩ : Address)]?) h
    revert hstranger
    decide
  have hfirst : withStranger[(⟨FixedBytes.ofNat 20 1⟩ : Address)]? = some .zero := by decide
  have hsecond : withStranger[(⟨FixedBytes.ofNat 20 2⟩ : Address)]? = some ⟨5, 6, 27⟩ := by decide
  obtain ⟨hsame, -, hpacked⟩ := packing_is_positional settledState
  obtain ⟨settlement, hmade, -⟩ := @ofState_of_isFinal settledState withStranger rfl
  obtain ⟨-, hplaces, -, hmissing, hbytes⟩ := hpacked withStranger settlement hmade
  have hsize : settlement.outcomeBytes.length < UInt64.size := by
    rw [outcomeBytes_eq hmade, Outcome.encode, Token.encode, Token.length_bytesOf_sequence]
    decide
  refine ⟨hagree, hdiffer, hsame _ _ hagree, settlement, hmade, ?_, ?_, ?_, hsize, ?_⟩
  · rw [hplaces]
    decide
  · refine (hmissing 0).mpr ⟨_, rfl, fun sig hsig => ?_⟩
    obtain rfl := Option.some.inj (hfirst.symm.trans hsig)
    decide
  · intro hmem
    obtain ⟨account, hplace, hzero⟩ := (hmissing 1).mp hmem
    obtain rfl := Option.some.inj hplace
    exact absurd (hzero _ hsecond) (by decide)
  · intro settlement' hmade' hsame'
    exact absurd (hbytes _ _ _ hmade' hsize hsame') (by decide)

end Settlement

end DebtChannel
