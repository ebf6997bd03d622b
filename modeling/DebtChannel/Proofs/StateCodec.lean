import DebtChannel.Proofs.WireMessages
import DebtChannel.State.Hash
import DebtChannel.State.Message

/-!
# States read back

Everything that a state says is written, part by part and in depth: the shares are messages in the
message of their exit, and the exits in that of the state. What a part leaves out when it has its
default comes back as that default. The proof has a layer for the form, which is the business of
the messages (`State.read_fields`), and one for the content, which is below: addresses and
destinations have the right number of bytes because their types say so, a number of 256 bits is
written in full, and the kind of a share is a byte again after it was carried in 32 bits.

The bytes of a state are those of its message, so no state is written as no bytes: the chain id
always takes its 32. Nothing is said of states that take 2^64 bytes or more. The length in front of
a part is a number of 64 bits, and no program holds so many bytes.
-/

namespace DebtChannel

theorem Allocation.ofMessage_toMessage (share : Allocation) :
    Allocation.ofMessage share.toMessage = .ok share := by
  have hbyte : share.allocationType.toUInt32 < 256 := by
    rw [UInt32.lt_iff_toNat_lt, UInt8.toNat_toUInt32]
    exact share.allocationType.toNat_lt
  simp only [Allocation.ofMessage, Allocation.toMessage, Wire.destination_toList,
    Wire.uint256_toBytes, bind, Except.bind, if_pos hbyte, UInt8.toUInt8_toUInt32]

theorem Exit.ofMessage_toMessage (exit : Exit) : Exit.ofMessage exit.toMessage = .ok exit := by
  have hallocations : (exit.allocations.map Allocation.toMessage).mapM Allocation.ofMessage
      = .ok exit.allocations :=
    mapM_map_eq_ok fun share _ => share.ofMessage_toMessage
  simp only [Exit.ofMessage, Exit.toMessage, Wire.address_toList, bind, Except.bind, hallocations]

namespace State

/-- A state reads back from its message. -/
theorem ofMessage_toMessage (state : State) : ofMessage state.toMessage = .ok state := by
  have haccounts : (state.participants.map fun account => account.toList).mapM
      (Wire.address "participants") = .ok state.participants :=
    mapM_map_eq_ok fun account _ => Wire.address_toList "participants" account
  have hexits : (state.outcome.map Exit.toMessage).mapM Exit.ofMessage = .ok state.outcome :=
    mapM_map_eq_ok fun exit _ => exit.ofMessage_toMessage
  simp only [ofMessage, toMessage, Wire.uint256_toBytes, Wire.address_toList, bind, Except.bind,
    haccounts, hexits]

theorem encode_ne_nil (state : State) : state.encode ≠ [] := by
  have hchain : state.toMessage.chainId ≠ [] := by
    refine List.ne_nil_of_length_pos ?_
    show 0 < state.chainId.toBytes.toList.length
    rw [state.chainId.toBytes.length_toList]
    decide
  have hmem : ⟨1, .content state.toMessage.chainId⟩ ∈ state.toMessage.fields :=
    Wire.Reader.content_mem_of_filter (by simp [Wire.Message.State.filter_fields]) hchain
  rw [encode, Ne, Wire.writeAll_eq_nil_iff state.toMessage.writable]
  exact List.ne_nil_of_mem hmem

theorem decode_encode {state : State} (hsize : state.encode.length < UInt64.size) :
    decode state.encode = .ok state := by
  have hmessage : Wire.Message.ofBytes? Wire.Message.State.read state.encode
      = some state.toMessage :=
    Wire.Message.ofBytes?_writeAll state.toMessage.writable hsize
      (state.toMessage.read_fields (by decide) hsize)
  rw [decode, Wire.decode, if_neg state.encode_ne_nil, Wire.decodeAny, hmessage]
  exact mapError_eq_ok state.ofMessage_toMessage

/-- Every state is written as some bytes and reads back from them as it is, so that whoever receives
it finds the hash that was signed. In particular, a state that was read from bytes of any form reads
back from the bytes it is written as. -/
theorem states_read_back :
    (∀ state : State, state.encode ≠ [] ∧
      (state.encode.length < UInt64.size →
        decode state.encode = .ok state ∧ (decode state.encode).map hash = .ok state.hash)) ∧
    ∀ (bytes : Bytes) (state : State), decode bytes = .ok state →
      state.encode.length < UInt64.size → decode state.encode = .ok state := by
  constructor
  · intro state
    refine ⟨state.encode_ne_nil, fun hsize => ?_⟩
    have hback := decode_encode hsize
    exact ⟨hback, map_eq_ok hback⟩
  · intro bytes state _ hsize
    exact decode_encode hsize

/-- A state in which much has its default: nobody takes part, and of two assets the first is shared
out to nobody, the second as a share of zero and of an unusual kind. -/
def sparse : State where
  chainId := 1337
  participants := []
  channelNonce := 0
  appDefinition := .zero
  challengeDuration := 0
  appData := []
  outcome := [⟨.zero, [], []⟩, ⟨.zero, [7], [⟨⟨FixedBytes.ofNat 32 1⟩, 0, 255, []⟩]⟩]
  turn := 0
  isFinal := false

/-- The same state with its numbers in as few bytes as they need. -/
def sparseShort : Bytes :=
  Wire.Field.writeAll { sparse.toMessage with chainId := [5, 57], channelNonce := [] }.fields

theorem states_read_back_sparse :
    sparse.encode.length < UInt64.size ∧ sparseShort ≠ sparse.encode ∧
      decode sparseShort = .ok sparse ∧ decode sparse.encode = .ok sparse := by
  have hsize : sparse.encode.length < UInt64.size := by decide +kernel
  have hshort : decode sparseShort = .ok sparse :=
    eq_ok_of_toOption_eq_some (by decide +kernel)
  exact ⟨hsize, by decide +kernel, hshort, states_read_back.2 sparseShort sparse hshort hsize⟩

end State

end DebtChannel
