import DebtChannel.Opening.Message
import DebtChannel.Proofs.BuiltOpenings
import DebtChannel.Proofs.DraftCodec

/-!
# Proposals of channels read back

A proposal of a channel is read part by part, as a draft is, and then has one more test to pass:
each member has to stand in its place, with the index and the account that its state lists there.
So a proposal reads back from its bytes if its members stand in their places. Those of a proposal
that was put together do, and those of one that was read before, and taking in another member keeps
them there. Nothing else in it is compared with anything; in particular, it does not matter whether
the exits that a new member is added to were put together here or came in with the bytes.
-/

namespace DebtChannel

open Wire (DecodeError)

/-- A member reads back from its message. -/
theorem Participant.ofMessage_toMessage (participant : Participant) :
    Participant.ofMessage participant.toMessage = .ok participant := by
  simp only [Participant.ofMessage, Participant.toMessage, Wire.address_toList,
    Wire.destination_toList, Wire.uint256_toBytes, bind, Except.bind]

theorem ContractRef.ofMessage_toMessage (contract : ContractRef) :
    ContractRef.ofMessage contract.toMessage = .ok contract := by
  simp only [ContractRef.ofMessage, ContractRef.toMessage, Wire.address_toList, bind, Except.bind]

namespace Opening

variable {opening : Opening}

theorem ofMessage_toMessage (h : opening.InPlace) : ofMessage opening.toMessage = .ok opening := by
  have hparticipants : (opening.participants.map Participant.toMessage).mapM Participant.ofMessage
      = .ok opening.participants :=
    mapM_map_eq_ok fun participant _ => participant.ofMessage_toMessage
  have hplaces : Participant.inPlace 0 opening.participants opening.state.participants = true := h
  simp only [ofMessage, toMessage, hparticipants, Option.elim_some, State.ofMessage_toMessage,
    ContractRef.ofMessage_toMessage, bind, Except.bind, hplaces, if_true]

theorem inPlace_of_ofMessage {message : Wire.Message.Opening} (h : ofMessage message = .ok opening) :
    opening.InPlace := by
  unfold ofMessage at h
  obtain ⟨participants, -, h⟩ := exists_ok_of_bind_eq_ok h
  obtain ⟨state, -, h⟩ := exists_ok_of_bind_eq_ok h
  split at h
  · next hplaces =>
      obtain ⟨contract, -, h⟩ := exists_ok_of_bind_eq_ok h
      obtain rfl := Except.ok.inj h
      exact hplaces
  · cases h

theorem encode_ne_nil (opening : Opening) : opening.encode ≠ [] := by
  rw [encode, Ne, Wire.writeAll_eq_nil_iff opening.toMessage.writable]
  exact List.append_ne_nil_of_right_ne_nil _ (List.cons_ne_nil _ _)

/-- A proposal whose members stand in their places reads back from its bytes. -/
theorem InPlace.decode_encode (h : opening.InPlace) (hsize : opening.encode.length < UInt64.size) :
    decode opening.encode = .ok opening := by
  have hmessage : Wire.Message.ofBytes? Wire.Message.Opening.read opening.encode
      = some opening.toMessage :=
    Wire.Message.ofBytes?_writeAll opening.toMessage.writable hsize
      (Wire.Message.Opening.read_fields (by decide) _ _ _ hsize)
  rw [decode, Wire.decode, if_neg opening.encode_ne_nil, Wire.decodeAny, hmessage]
  exact mapError_eq_ok (ofMessage_toMessage h)

theorem inPlace_of_decode {bytes : Bytes} (h : decode bytes = .ok opening) : opening.InPlace := by
  unfold decode Wire.decode at h
  split at h
  · cases h
  · unfold Wire.decodeAny at h
    split at h
    · cases h
    · exact inPlace_of_ofMessage (eq_ok_of_mapError_eq_ok h)

/-- A proposal reads back as it is from its bytes, whether it was put together from the start or
read from bytes and extended, whatever exits it came with. So the channels that the two sides create
from it, each with settings of its own and seen from any place, have one id and the same hashes to
sign for the states before and after funding. In particular, what was read from bytes of any form
reads back from the bytes it is written as. -/
theorem proposals_read_back :
    (∀ start : Opening,
      ((∃ chainId contract initiator channelNonce config,
          ofInitiator chainId contract initiator channelNonce config = .ok start) ∨
        ∃ bytes, decode bytes = .ok start) →
      ∀ joining : List Participant,
        (start.afterAll joining).encode.length < UInt64.size →
        decode (start.afterAll joining).encode = .ok (start.afterAll joining) ∧
        ∀ received, decode (start.afterAll joining).encode = .ok received →
          received.channelId = (start.afterAll joining).channelId ∧
          ∀ (here there : UInt64) (ours theirs : Config) (channel other : Channel),
            Channel.create (start.afterAll joining) here ours = .ok channel →
            Channel.create received there theirs = .ok other →
            other.id = channel.id ∧
            other.turns.preFund.hash = channel.turns.preFund.hash ∧
            other.turns.postFund.hash = channel.turns.postFund.hash) ∧
    ∀ (bytes : Bytes) (opening : Opening), decode bytes = .ok opening →
      opening.encode.length < UInt64.size → decode opening.encode = .ok opening := by
  constructor
  · intro start hstart joining hsize
    have hplaces : start.InPlace := by
      rcases hstart with ⟨chainId, contract, initiator, channelNonce, config, h⟩ | ⟨bytes, h⟩
      · exact (Built.ofInitiator h).composed.places
      · exact inPlace_of_decode h
    have hback := (hplaces.afterAll joining).decode_encode hsize
    refine ⟨hback, fun received hreceived => ?_⟩
    obtain rfl := Except.ok.inj (hback.symm.trans hreceived)
    refine ⟨rfl, fun here there ours theirs channel other hchannel hother => ?_⟩
    obtain ⟨-, -, rfl⟩ := Channel.create_ok hchannel
    obtain ⟨-, -, rfl⟩ := Channel.create_ok hother
    exact ⟨rfl, rfl, rfl⟩
  · intro bytes opening h hsize
    exact (inPlace_of_decode h).decode_encode hsize

/-- A proposal of one member whose outcome nobody put together: there are two exits, one with further
data and without a share. -/
def foreign : Opening :=
  { Channel.soloOpening with
    state := { Channel.soloOpening.state with
      outcome := [⟨.zero, [1], []⟩, ⟨.zero, [], [⟨⟨FixedBytes.ofNat 32 7⟩, 9, 3, [2, 4]⟩]⟩] } }

/-- The same proposal after a second member has joined; the first is in it already. -/
def extended : Opening := foreign.afterAll Channel.duoOpening.participants

/-- That proposal reads back when it came in as bytes and was extended. So does one that was put
together, and both sides create the same channel of it. -/
theorem extended_and_duo_read_back :
    decode foreign.encode = .ok foreign ∧
    extended.participants = Channel.duoOpening.participants ∧
    extended.encode.length < UInt64.size ∧ decode extended.encode = .ok extended ∧
    Channel.duoOpening.encode.length < UInt64.size ∧
    ∃ channel other, Channel.create Channel.duoOpening 0 = .ok channel ∧
      Channel.create Channel.duoOpening 1 = .ok other ∧ other.id = channel.id ∧
      other.turns.preFund.hash = channel.turns.preFund.hash := by
  have hplaces : foreign.InPlace := rfl
  have hback : decode foreign.encode = .ok foreign := hplaces.decode_encode (by decide +kernel)
  let initiator : Participant := Channel.duoOpening.participants[0]
  have hstart : ofInitiator 1 Channel.duoOpening.contract initiator 7 {}
      = .ok Channel.soloOpening := rfl
  have hduo : Channel.soloOpening.afterAll Channel.duoOpening.participants = Channel.duoOpening :=
    rfl
  have hextended : extended.encode.length < UInt64.size := by decide +kernel
  have hsize : Channel.duoOpening.encode.length < UInt64.size := by decide +kernel
  obtain ⟨hread, -⟩ := proposals_read_back.1 foreign (.inr ⟨_, hback⟩)
    Channel.duoOpening.participants hextended
  obtain ⟨hduoBack, hsame⟩ := proposals_read_back.1 Channel.soloOpening
    (.inl ⟨1, Channel.duoOpening.contract, initiator, 7, {}, hstart⟩)
    Channel.duoOpening.participants (by rw [hduo]; exact hsize)
  rw [hduo] at hduoBack hsame
  obtain ⟨-, hchannels⟩ := hsame Channel.duoOpening hduoBack
  obtain ⟨hid, hhash, -⟩ := hchannels 0 1 {} {} _ _ rfl rfl
  exact ⟨hback, rfl, hextended, hread, hsize, _, _, rfl, rfl, hid, hhash⟩

end Opening

end DebtChannel
