import DebtChannel.Abi.Token
import DebtChannel.Hash.Keccak
import DebtChannel.State.Basic

/-!
# What the adjudicator sees of a state

The adjudicator computes the id of a channel and the hash of a state on its own, from their
encodings as arguments of a call. Both are therefore fixed to the letter: the id is the hash of the
fixed part, and the hash of a state covers that id and everything else the state says. Participants
sign nothing but this hash.
-/

namespace DebtChannel

open Abi (Token)

/-- The token of a number of 256 bits. -/
def Uint256.token (value : Uint256) : Token := .word value.toBytes

/-- The token of an address. -/
def Address.token (account : Address) : Token := .word account.padded

/-- The token of a share. -/
def Allocation.token (share : Allocation) : Token :=
  .tuple [.word share.destination.toFixedBytes, share.amount.token,
    .number share.allocationType.toNat, .bytes share.metadata]

/-- The token of the shares of an asset. -/
def Exit.token (exit : Exit) : Token :=
  .tuple [exit.asset.token, .bytes exit.metadata, .array (exit.allocations.map Allocation.token)]

namespace Outcome

/-- The token of an outcome. -/
def token (outcome : Outcome) : Token := .array (outcome.map Exit.token)

/-- The bytes of an outcome, as the adjudicator takes them. -/
def encode (outcome : Outcome) : Bytes := (token outcome).encode

/-- The hash of an outcome, which the adjudicator keeps for each channel. -/
def hash (outcome : Outcome) : Hash := keccak256 (encode outcome)

end Outcome

namespace FixedPart

/-- The token of a fixed part. -/
def token (fixed : FixedPart) : Token :=
  .tuple [fixed.chainId.token, .array (fixed.participants.map Address.token),
    fixed.channelNonce.token, fixed.appDefinition.token, .number fixed.challengeDuration.toNat]

/-- The bytes that the id of a channel is the hash of. -/
def encode (fixed : FixedPart) : Bytes := fixed.token.encodeArguments

/-- The id of the channel. -/
def channelId (fixed : FixedPart) : Hash := keccak256 fixed.encode

end FixedPart

namespace State

/-- The token of what participants sign. -/
def signedToken (state : State) : Token :=
  .tuple [.word state.channelId.toFixedBytes, .bytes state.appData, Outcome.token state.outcome,
    .number state.turn.toNat, .flag state.isFinal]

/-- The bytes that the hash of a state is the hash of. -/
def signedBytes (state : State) : Bytes := state.signedToken.encodeArguments

/-- What participants sign. -/
def hash (state : State) : Hash := keccak256 state.signedBytes

end State

end DebtChannel
