import DebtChannel.Abi.Value
import DebtChannel.Proofs.AbiDecodable
import DebtChannel.State.Hash

/-!
# A hash stands for one state

Participants sign a hash and mean a state. What makes that sound is that nobody can name two states
with the same hash without having in hand two different byte strings that Keccak-256 takes to the
same value. There are two places to look for them, because the hash of a state covers the fixed
part only through the id of the channel: the bytes of the two states, and those of their fixed
parts.

Both byte strings are the arguments of a call and of one type each, so they can be told apart
(`AbiDecodable`); what is left is that no token forgets anything of what it was made from. The
tokens are written down field by field in `State.Hash`. How the records get there, as values that
the encoder may refuse, is the first part of this file: it never refuses one, and what comes out is
what is written there.
-/

namespace DebtChannel

open Abi (Token Value Kind)

/-! ## Records as values -/

/-- The hash of a value as the arguments of a call, if the value can be encoded. -/
def Abi.Value.argumentsHash (value : Value) : Except Abi.Error Hash :=
  value.toToken.map fun token => keccak256 token.encodeArguments

def Abi.Value.ofUInt8 (number : UInt8) : Value := .uint .w8 number.toBitVec

def Abi.Value.ofUInt64 (number : UInt64) : Value := .uint .w64 number.toBitVec

def Allocation.value (share : Allocation) : Value :=
  .tuple [.ofFixedBytes share.destination.toFixedBytes, .ofUint256 share.amount,
    .ofUInt8 share.allocationType, .dynamic (.bytes share.metadata)]

def Exit.value (exit : Exit) : Value :=
  .tuple [.ofAddress exit.asset, .dynamic (.bytes exit.metadata),
    .sequence (exit.allocations.map Allocation.value)]

def Outcome.value (outcome : Outcome) : Value := .sequence (outcome.map Exit.value)

namespace FixedPart

def value (fixed : FixedPart) : Value :=
  .tuple [.ofUint256 fixed.chainId, .sequence (fixed.participants.map .ofAddress),
    .ofUint256 fixed.channelNonce, .ofAddress fixed.appDefinition,
    .ofUInt64 fixed.challengeDuration]

/-- The id of the channel as the encoder gives it. -/
def channelId? (fixed : FixedPart) : Except Abi.Error Hash := fixed.value.argumentsHash

end FixedPart

namespace State

/-- What participants sign, where `id` is the id of the channel. -/
def signedValue (state : State) (id : Hash) : Value :=
  .tuple [.ofFixedBytes id.toFixedBytes, .dynamic (.bytes state.appData),
    Outcome.value state.outcome, .ofUInt64 state.turn, .bool state.isFinal]

/-- The hash of the state as the encoder gives it, after that of its fixed part. -/
def hash? (state : State) : Except Abi.Error Hash := do
  let id ← state.channelId?
  (state.signedValue id).argumentsHash

end State

/-! ## The encoder refuses none of them -/

namespace Abi.Value

theorem toToken_ofSlot (slot : Slot) : (Value.bytes slot.toList).toToken = .ok (.word slot) := by
  have hpad : Bytes.padRight 32 slot.toList = slot.toList := by
    unfold Bytes.padRight
    rw [slot.length_toList]
    exact List.append_nil _
  rw [toToken, tokenBelow, Token.ofBytes, if_neg Bool.false_ne_true,
    dif_pos (Nat.le_of_eq slot.length_toList)]
  congr 2
  exact FixedBytes.ext hpad

theorem toToken_ofUint256 (amount : Uint256) : (ofUint256 amount).toToken = .ok amount.token :=
  toToken_ofSlot amount.toBytes

theorem toToken_ofAddress (account : Address) : (ofAddress account).toToken = .ok account.token :=
  toToken_ofSlot account.padded

theorem toToken_uint (width : Width) (value : BitVec width.bits) :
    (uint width value).toToken = .ok (.number value.toNat) := by
  rw [toToken, tokenBelow, Uint256.toBytes, width.toNat_setWidth]
  rfl

theorem toToken_ofUInt8 (number : UInt8) :
    (ofUInt8 number).toToken = .ok (.number number.toNat) :=
  toToken_uint .w8 number.toBitVec

theorem toToken_ofUInt64 (number : UInt64) :
    (ofUInt64 number).toToken = .ok (.number number.toNat) :=
  toToken_uint .w64 number.toBitVec

theorem tokens_map {α : Type} {value : α → Value} {token : α → Token}
    (h : ∀ a, (value a).toToken = .ok (token a)) (items : List α) :
    tokens (items.map value) = .ok (items.map token) := by
  induction items with
  | nil => rfl
  | cons a items ih =>
      have ha : tokenBelow false (value a) = .ok (token a) := h a
      rw [List.map_cons, tokens, ha, ih]
      rfl

theorem toToken_sequence_map {α : Type} {value : α → Value} {token : α → Token}
    (h : ∀ a, (value a).toToken = .ok (token a)) (items : List α) :
    (sequence (items.map value)).toToken = .ok (.array (items.map token)) := by
  rw [toToken, tokenBelow, tokens_map h]
  rfl

/-- A record is encoded field by field. -/
theorem toToken_tuple {fields : List Value} {written : List Token}
    (h : fields.map toToken = written.map .ok) : (tuple fields).toToken = .ok (.tuple written) := by
  have hfields : tokens fields = .ok written := by
    induction fields generalizing written with
    | nil =>
        cases written with
        | nil => rfl
        | cons token written => cases h
    | cons value fields ih =>
        cases written with
        | nil => cases h
        | cons token written =>
            obtain ⟨hvalue, hrest⟩ := List.cons.inj h
            have hvalue : tokenBelow false value = .ok token := hvalue
            rw [tokens, hvalue, ih hrest]
  rw [toToken, tokenBelow, hfields]
  rfl

end Abi.Value

open Abi.Value in
theorem Allocation.toToken_value (share : Allocation) : share.value.toToken = .ok share.token := by
  refine toToken_tuple ?_
  simp only [List.map_cons, List.map_nil]
  rw [ofFixedBytes, toToken_ofSlot, toToken_ofUint256, toToken_ofUInt8]
  rfl

open Abi.Value in
theorem Exit.toToken_value (exit : Exit) : exit.value.toToken = .ok exit.token := by
  refine toToken_tuple ?_
  simp only [List.map_cons, List.map_nil]
  rw [toToken_ofAddress, toToken_sequence_map Allocation.toToken_value]
  rfl

open Abi.Value in
theorem FixedPart.toToken_value (fixed : FixedPart) : fixed.value.toToken = .ok fixed.token := by
  refine toToken_tuple ?_
  simp only [List.map_cons, List.map_nil]
  rw [toToken_ofUint256, toToken_ofUint256, toToken_ofAddress, toToken_ofUInt64,
    toToken_sequence_map toToken_ofAddress]

open Abi.Value in
theorem State.toToken_signedValue (state : State) :
    (state.signedValue state.channelId).toToken = .ok state.signedToken := by
  refine toToken_tuple ?_
  simp only [List.map_cons, List.map_nil]
  rw [ofFixedBytes, toToken_ofSlot, toToken_ofUInt64, Outcome.value,
    toToken_sequence_map Exit.toToken_value]
  rfl

theorem FixedPart.channelId?_eq_ok (fixed : FixedPart) :
    fixed.channelId? = .ok fixed.channelId := by
  rw [channelId?, Abi.Value.argumentsHash, toToken_value]
  rfl

theorem State.hash?_eq_ok (state : State) : state.hash? = .ok state.hash := by
  rw [hash?, state.channelId?_eq_ok]
  show (state.signedValue state.channelId).argumentsHash = .ok state.hash
  rw [Abi.Value.argumentsHash, toToken_signedValue]
  rfl

/-! ## The types of the tokens -/

theorem haveKinds_map {α : Type} {kind : Kind} {token : α → Token}
    (h : ∀ a, (token a).HasKind kind) (items : List α) :
    Token.HaveKinds (List.replicate (items.map token).length kind) (items.map token) := by
  induction items with
  | nil => rw [List.map_nil, List.length_nil, List.replicate_zero, Token.HaveKinds]; exact trivial
  | cons a items ih =>
      rw [List.map_cons, List.length_cons, List.replicate_succ, Token.HaveKinds]
      exact ⟨h a, ih⟩

def Allocation.kind : Kind := .tuple [.word, .word, .word, .bytes]

def Exit.kind : Kind := .tuple [.word, .bytes, .array Allocation.kind]

/-- The types of the arguments that the id of a channel is the hash of. -/
def FixedPart.kinds : List Kind := [.word, .array .word, .word, .word, .word]

/-- The types of the arguments that the hash of a state is the hash of. -/
def State.kinds : List Kind := [.word, .bytes, .array Exit.kind, .word, .word]

theorem Allocation.hasKind_token (share : Allocation) : share.token.HasKind Allocation.kind := by
  simp only [Allocation.token, Allocation.kind, Uint256.token, Token.number, Token.HasKind,
    Token.HaveKinds, and_self]

theorem Exit.hasKind_token (exit : Exit) : exit.token.HasKind Exit.kind := by
  simp only [Exit.token, Exit.kind, Address.token, Token.HasKind, Token.HaveKinds, true_and,
    and_true]
  exact haveKinds_map Allocation.hasKind_token exit.allocations

namespace FixedPart

/-- The arguments that the id of a channel is the hash of. -/
def arguments (fixed : FixedPart) : List Token :=
  [fixed.chainId.token, .array (fixed.participants.map Address.token), fixed.channelNonce.token,
    fixed.appDefinition.token, .number fixed.challengeDuration.toNat]

theorem encode_eq (fixed : FixedPart) :
    fixed.encode = Token.encodeArguments (.tuple fixed.arguments) := rfl

theorem haveKinds_arguments (fixed : FixedPart) : Token.HaveKinds kinds fixed.arguments := by
  have haccount : ∀ account : Address, account.token.HasKind .word := by
    intro account
    rw [Address.token, Token.HasKind]
    exact trivial
  simp only [arguments, kinds, Uint256.token, Address.token, Token.number, Token.HasKind,
    Token.HaveKinds, true_and, and_true]
  exact haveKinds_map haccount fixed.participants

end FixedPart

namespace State

/-- The arguments that the hash of a state is the hash of. -/
def arguments (state : State) : List Token :=
  [.word state.channelId.toFixedBytes, .bytes state.appData, Outcome.token state.outcome,
    .number state.turn.toNat, .flag state.isFinal]

theorem signedBytes_eq (state : State) :
    state.signedBytes = Token.encodeArguments (.tuple state.arguments) := rfl

theorem haveKinds_arguments (state : State) : Token.HaveKinds kinds state.arguments := by
  simp only [arguments, kinds, Outcome.token, Token.number, Token.flag, Token.HasKind,
    Token.HaveKinds, true_and, and_true]
  exact haveKinds_map Exit.hasKind_token state.outcome

end State

/-! ## No token forgets anything -/

theorem Uint256.token_injective {a b : Uint256} (h : a.token = b.token) : a = b := by
  have hbytes : a.toBytes = b.toBytes := Token.word.inj h
  rw [← Uint256.ofBytes_toBytes a, ← Uint256.ofBytes_toBytes b, hbytes]

theorem Address.token_injective {a b : Address} (h : a.token = b.token) : a = b := by
  have hpadded : Bytes.padLeft 32 a.toList = Bytes.padLeft 32 b.toList :=
    congrArg FixedBytes.toList (Token.word.inj h)
  unfold Bytes.padLeft at hpadded
  rw [a.length_toList, b.length_toList] at hpadded
  exact Address.ext (List.append_cancel_left hpadded)

theorem Abi.Token.number_injective {a b : Nat} (ha : a < UInt64.size) (hb : b < UInt64.size)
    (h : Token.number a = Token.number b) : a = b :=
  Token.sizeSlot_injective ha hb (Token.word.inj h)

theorem Abi.Token.flag_injective {a b : Bool} (h : Token.flag a = Token.flag b) : a = b := by
  have hbit : a.toNat = b.toNat :=
    number_injective (Nat.lt_of_le_of_lt (Bool.toNat_le a) (by decide))
      (Nat.lt_of_le_of_lt (Bool.toNat_le b) (by decide)) h
  cases a <;> cases b <;> first | rfl | cases hbit

theorem Allocation.token_injective {a b : Allocation} (h : a.token = b.token) : a = b := by
  have hfields := Token.tuple.inj h
  obtain ⟨destination, amount, allocationType, metadata⟩ := a
  obtain ⟨destination', amount', allocationType', metadata'⟩ := b
  simp only [List.cons.injEq, and_true] at hfields
  obtain ⟨hdestination, hamount, htype, hmetadata⟩ := hfields
  have hdestination : destination = destination' :=
    Destination.ext (congrArg FixedBytes.toList (Token.word.inj hdestination))
  have hbyte : ∀ byte : UInt8, byte.toNat < UInt64.size :=
    fun byte => Nat.lt_trans byte.toNat_lt_size (by decide)
  have htype : allocationType = allocationType' :=
    UInt8.toNat_inj.mp (Token.number_injective (hbyte _) (hbyte _) htype)
  rw [hdestination, Uint256.token_injective hamount, htype, Token.bytes.inj hmetadata]

theorem Exit.token_injective {a b : Exit} (h : a.token = b.token) : a = b := by
  have hfields := Token.tuple.inj h
  obtain ⟨asset, metadata, allocations⟩ := a
  obtain ⟨asset', metadata', allocations'⟩ := b
  simp only [List.cons.injEq, and_true] at hfields
  obtain ⟨hasset, hmetadata, hallocations⟩ := hfields
  have hallocations : allocations = allocations' :=
    List.map_inj_right (fun _ _ => Allocation.token_injective) |>.mp (Token.array.inj hallocations)
  rw [Address.token_injective hasset, Token.bytes.inj hmetadata, hallocations]

theorem Outcome.token_injective {a b : Outcome} (h : Outcome.token a = Outcome.token b) : a = b :=
  List.map_inj_right (fun _ _ => Exit.token_injective) |>.mp (Token.array.inj h)

theorem FixedPart.arguments_injective {a b : FixedPart} (h : a.arguments = b.arguments) :
    a = b := by
  obtain ⟨chainId, participants, channelNonce, appDefinition, challengeDuration⟩ := a
  obtain ⟨chainId', participants', channelNonce', appDefinition', challengeDuration'⟩ := b
  simp only [arguments, List.cons.injEq, and_true] at h
  obtain ⟨hchain, hparticipants, hnonce, happ, hduration⟩ := h
  have hparticipants : participants = participants' :=
    List.map_inj_right (fun _ _ => Address.token_injective) |>.mp (Token.array.inj hparticipants)
  have hduration : challengeDuration = challengeDuration' :=
    UInt64.toNat_inj.mp (Token.number_injective challengeDuration.toNat_lt_size
      challengeDuration'.toNat_lt_size hduration)
  rw [Uint256.token_injective hchain, hparticipants, Uint256.token_injective hnonce,
    Address.token_injective happ, hduration]

/-- The arguments say everything of a state but its fixed part, of which they say the id. -/
theorem State.arguments_injective {a b : State} (hfixed : a.toFixedPart = b.toFixedPart)
    (h : a.arguments = b.arguments) : a = b := by
  obtain ⟨fixed, appData, outcome, turn, isFinal⟩ := a
  obtain ⟨fixed', appData', outcome', turn', isFinal'⟩ := b
  simp only [arguments, List.cons.injEq, and_true] at h
  obtain ⟨-, happData, houtcome, hturn, hfinal⟩ := h
  have hturn : turn = turn' :=
    UInt64.toNat_inj.mp (Token.number_injective turn.toNat_lt_size turn'.toNat_lt_size hturn)
  have hfixed : fixed = fixed' := hfixed
  rw [hfixed, Token.bytes.inj happData, Outcome.token_injective houtcome, hturn,
    Token.flag_injective hfinal]

/-! ## One hash, one state -/

theorem FixedPart.encode_injective {a b : FixedPart} (ha : a.encode.length < UInt64.size)
    (hb : b.encode.length < UInt64.size) (h : a.encode = b.encode) : a = b := by
  rw [encode_eq] at ha hb
  rw [encode_eq, encode_eq] at h
  exact arguments_injective (Token.encodeArguments_injective_of_isSolid (by decide)
    a.haveKinds_arguments b.haveKinds_arguments ha hb h)

theorem State.arguments_eq_of_signedBytes_eq {a b : State} (ha : a.signedBytes.length < UInt64.size)
    (hb : b.signedBytes.length < UInt64.size) (h : a.signedBytes = b.signedBytes) :
    a.arguments = b.arguments := by
  rw [signedBytes_eq] at ha hb
  rw [signedBytes_eq, signedBytes_eq] at h
  exact Token.encodeArguments_injective_of_isSolid (by decide) a.haveKinds_arguments
    b.haveKinds_arguments ha hb h

/-- The encoder refuses no state. Two states with one hash are the same state, or else one of the
two hash layers has a collision right at hand: the bytes of the fixed parts are different and have
the same hash, or the bytes that are signed do. -/
theorem State.hash_binds_state (a b : State) (hfixedA : a.toFixedPart.encode.length < UInt64.size)
    (hfixedB : b.toFixedPart.encode.length < UInt64.size)
    (hsignedA : a.signedBytes.length < UInt64.size)
    (hsignedB : b.signedBytes.length < UInt64.size) :
    a.channelId? = .ok a.channelId ∧ a.hash? = .ok a.hash ∧
    (a.hash? = b.hash? →
      a = b ∨
      (a.toFixedPart.encode ≠ b.toFixedPart.encode ∧
        keccak256 a.toFixedPart.encode = keccak256 b.toFixedPart.encode) ∨
      (a.signedBytes ≠ b.signedBytes ∧ keccak256 a.signedBytes = keccak256 b.signedBytes)) := by
  refine ⟨a.channelId?_eq_ok, a.hash?_eq_ok, fun h => ?_⟩
  rw [a.hash?_eq_ok, b.hash?_eq_ok] at h
  have hhash : keccak256 a.signedBytes = keccak256 b.signedBytes := Except.ok.inj h
  by_cases hsigned : a.signedBytes = b.signedBytes
  · have harguments := arguments_eq_of_signedBytes_eq hsignedA hsignedB hsigned
    have hid : a.channelId.toFixedBytes = b.channelId.toFixedBytes :=
      Token.word.inj (List.cons.inj harguments).1
    have hid : keccak256 a.toFixedPart.encode = keccak256 b.toFixedPart.encode :=
      Hash.ext (congrArg FixedBytes.toList hid)
    by_cases hfixed : a.toFixedPart.encode = b.toFixedPart.encode
    · have hparts := FixedPart.encode_injective hfixedA hfixedB hfixed
      exact .inl (arguments_injective hparts harguments)
    · exact .inr (.inl ⟨hfixed, hid⟩)
  · exact .inr (.inr ⟨hsigned, hhash⟩)

/-- A state of a channel of two, which shares out one asset. -/
def State.sharedOut : State where
  chainId := 1
  participants := [⟨FixedBytes.ofNat 20 1⟩, ⟨FixedBytes.ofNat 20 2⟩]
  channelNonce := 7
  appDefinition := Address.zero
  challengeDuration := 60
  appData := [1, 2, 3]
  outcome := [⟨Address.zero, [],
    [.simple ⟨FixedBytes.ofNat 32 1⟩ 40, ⟨⟨FixedBytes.ofNat 32 2⟩, 2, 1, [9]⟩]⟩]
  turn := 4
  isFinal := false

/-- The same state, but as the last one of its channel, has another hash, or else the bytes that are
signed collide. -/
theorem State.hash_binds_sharedOut :
    State.sharedOut.hash? = .ok State.sharedOut.hash ∧
    (State.sharedOut.hash? = { State.sharedOut with isFinal := true }.hash? →
      State.sharedOut.signedBytes ≠ { State.sharedOut with isFinal := true }.signedBytes ∧
        keccak256 State.sharedOut.signedBytes
          = keccak256 { State.sharedOut with isFinal := true }.signedBytes) := by
  have hfixed : State.sharedOut.toFixedPart.encode.length < UInt64.size := by
    rw [FixedPart.encode_eq, Token.length_encodeArguments_tuple]
    decide
  have hsigned : State.sharedOut.signedBytes.length < UInt64.size := by
    rw [State.signedBytes_eq, Token.length_encodeArguments_tuple]
    decide
  have hsigned' : { State.sharedOut with isFinal := true }.signedBytes.length < UInt64.size := by
    rw [State.signedBytes_eq, Token.length_encodeArguments_tuple]
    decide
  obtain ⟨-, hok, hbinds⟩ := State.hash_binds_state State.sharedOut
    { State.sharedOut with isFinal := true } hfixed hfixed hsigned hsigned'
  refine ⟨hok, fun h => ?_⟩
  rcases hbinds h with hsame | ⟨hdiffer, -⟩ | hcollision
  · exact absurd (congrArg State.isFinal hsame) (by decide)
  · exact absurd rfl hdiffer
  · exact hcollision

end DebtChannel
