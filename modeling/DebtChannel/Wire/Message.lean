import DebtChannel.Wire.Field

/-!
# The messages that participants exchange

Each message is a record of raw fields: numbers of 256 bits, addresses and destinations are still
byte strings of any length, and nothing has been checked but the form. `fields` lists what is
written, in the order of the field numbers, and `read` collects what is needed from the fields of a
message that came in, whatever their order. Reading a message is done before anything in it is
looked at, so a message of bad form is refused as such even if its content is bad too.
-/

namespace DebtChannel.Wire.Message

/-- An amount of an asset. -/
structure AssetAmount where
  /-- The code of the asset. -/
  asset : String := ""
  /-- The amount, most significant byte first. -/
  amount : Bytes := []
deriving DecidableEq

/-- What one participant owes another. -/
structure Liability where
  /-- The participant who owes. -/
  debtor : UInt64 := 0
  /-- The participant who is owed. -/
  creditor : UInt64 := 0
  /-- The amounts asked for. -/
  pending : List AssetAmount := []
  /-- The amounts confirmed. -/
  executed : List AssetAmount := []
deriving DecidableEq

/-- All liabilities of a channel. -/
structure Ledger where
  /-- The liabilities. -/
  liabilities : List Liability := []
deriving DecidableEq

/-- A share of an asset. -/
structure Allocation where
  /-- Where the share goes. -/
  destination : Bytes := []
  /-- The share, most significant byte first. -/
  amount : Bytes := []
  /-- What kind of share it is. -/
  allocationType : UInt32 := 0
  /-- Further data for that kind. -/
  metadata : Bytes := []
deriving DecidableEq

/-- How an asset is shared out. -/
structure Exit where
  /-- The contract of the asset. -/
  asset : Bytes := []
  /-- Further data. -/
  metadata : Bytes := []
  /-- The shares. -/
  allocations : List Allocation := []
deriving DecidableEq

/-- A state of a channel. -/
structure State where
  /-- The chain that the channel settles on. -/
  chainId : Bytes := []
  /-- The addresses of the participants. -/
  participants : List Bytes := []
  /-- The number that tells channels of the same participants apart. -/
  channelNonce : Bytes := []
  /-- The contract with the rules of the channel. -/
  appDefinition : Bytes := []
  /-- Seconds that a challenge can be answered. -/
  challengeDuration : UInt64 := 0
  /-- The data that the rules are about. -/
  appData : Bytes := []
  /-- How the assets are shared out. -/
  outcome : List Exit := []
  /-- The number of the state. -/
  turn : UInt64 := 0
  /-- Whether it is the last one. -/
  isFinal : Bool := false
deriving DecidableEq

/-- A member of a channel. -/
structure Participant where
  /-- The account that signs. -/
  address : Bytes := []
  /-- Where the money goes in the end. -/
  destination : Bytes := []
  /-- The deposit, most significant byte first. -/
  lockedAmount : Bytes := []
  /-- The place among the participants. -/
  index : UInt64 := 0
deriving DecidableEq

/-- The contracts that a channel settles on. -/
structure Contract where
  /-- The contract that holds the deposits. -/
  adjudicator : Bytes := []
  /-- The contract of the asset. -/
  asset : Bytes := []
deriving DecidableEq

/-- The proposal of a new channel. -/
structure Opening where
  /-- The members. -/
  participants : List Participant := []
  /-- The contracts. -/
  contract : Option Contract := none
  /-- The first state. -/
  state : Option State := none
deriving DecidableEq

/-- The proposal of a new state. -/
structure Draft where
  /-- The state. -/
  state : Option State := none
  /-- The liabilities, also those that are not part of the state yet. -/
  ledger : Option Ledger := none
deriving DecidableEq

open DebtChannel.Wire.Field DebtChannel.Wire.Reader

namespace AssetAmount

/-- The fields that are written. -/
def fields (m : AssetAmount) : List Field := ofString 1 m.asset ++ ofBytes 2 m.amount

/-- The message of the fields. -/
def read : Reader AssetAmount := fun fields => do
  some { asset := ← string 1 fields, amount := ← bytes 2 fields }

end AssetAmount

namespace Liability

/-- The fields that are written. -/
def fields (m : Liability) : List Field :=
  ofNumber 1 m.debtor.toNat ++ ofNumber 2 m.creditor.toNat
    ++ m.pending.map (fun a => ofMessage 3 a.fields)
    ++ m.executed.map fun a => ofMessage 4 a.fields

/-- The message of the fields. -/
def read (depth : Nat) : Reader Liability := fun fields => do
  some {
    debtor := ← uint64 1 fields
    creditor := ← uint64 2 fields
    pending := ← messages (depth - 1) AssetAmount.read 3 fields
    executed := ← messages (depth - 1) AssetAmount.read 4 fields }

end Liability

namespace Ledger

/-- The fields that are written. -/
def fields (m : Ledger) : List Field := m.liabilities.map fun l => ofMessage 1 l.fields

/-- The message of the fields. -/
def read (depth : Nat) : Reader Ledger := fun fields => do
  some { liabilities := ← messages (depth - 1) (Liability.read (depth - 1)) 1 fields }

end Ledger

namespace Allocation

/-- The fields that are written. -/
def fields (m : Allocation) : List Field :=
  ofBytes 1 m.destination ++ ofBytes 2 m.amount ++ ofNumber 3 m.allocationType.toNat
    ++ ofBytes 4 m.metadata

/-- The message of the fields. -/
def read : Reader Allocation := fun fields => do
  some {
    destination := ← bytes 1 fields
    amount := ← bytes 2 fields
    allocationType := ← uint32 3 fields
    metadata := ← bytes 4 fields }

end Allocation

namespace Exit

/-- The fields that are written. -/
def fields (m : Exit) : List Field :=
  ofBytes 1 m.asset ++ ofBytes 2 m.metadata ++ m.allocations.map fun a => ofMessage 3 a.fields

/-- The message of the fields. -/
def read (depth : Nat) : Reader Exit := fun fields => do
  some {
    asset := ← bytes 1 fields
    metadata := ← bytes 2 fields
    allocations := ← messages (depth - 1) Allocation.read 3 fields }

end Exit

namespace State

/-- The fields that are written. -/
def fields (m : State) : List Field :=
  ofBytes 1 m.chainId ++ m.participants.map (fun p => ⟨2, .content p⟩) ++ ofBytes 3 m.channelNonce
    ++ ofBytes 4 m.appDefinition ++ ofNumber 5 m.challengeDuration.toNat ++ ofBytes 6 m.appData
    ++ m.outcome.map (fun e => ofMessage 7 e.fields) ++ ofNumber 8 m.turn.toNat ++ ofBool 9 m.isFinal

/-- The message of the fields. -/
def read (depth : Nat) : Reader State := fun fields => do
  some {
    chainId := ← bytes 1 fields
    participants := ← contents 2 fields
    channelNonce := ← bytes 3 fields
    appDefinition := ← bytes 4 fields
    challengeDuration := ← uint64 5 fields
    appData := ← bytes 6 fields
    outcome := ← messages (depth - 1) (Exit.read (depth - 1)) 7 fields
    turn := ← uint64 8 fields
    isFinal := ← bool 9 fields }

end State

namespace Participant

/-- The fields that are written. -/
def fields (m : Participant) : List Field :=
  ofBytes 1 m.address ++ ofBytes 2 m.destination ++ ofBytes 3 m.lockedAmount
    ++ ofNumber 4 m.index.toNat

/-- The message of the fields. -/
def read : Reader Participant := fun fields => do
  some {
    address := ← bytes 1 fields
    destination := ← bytes 2 fields
    lockedAmount := ← bytes 3 fields
    index := ← uint64 4 fields }

end Participant

namespace Contract

/-- The fields that are written. -/
def fields (m : Contract) : List Field := ofBytes 1 m.adjudicator ++ ofBytes 2 m.asset

/-- The message of the fields. -/
def read : Reader Contract := fun fields => do
  some { adjudicator := ← bytes 1 fields, asset := ← bytes 2 fields }

end Contract

namespace Opening

/-- The fields that are written. -/
def fields (m : Opening) : List Field :=
  m.participants.map (fun p => ofMessage 1 p.fields)
    ++ (m.contract.map fun c => ofMessage 2 c.fields).toList
    ++ (m.state.map fun s => ofMessage 3 s.fields).toList

/-- The message of the fields. -/
def read (depth : Nat) : Reader Opening := fun fields => do
  some {
    participants := ← messages (depth - 1) Participant.read 1 fields
    contract := ← message? (depth - 1) Contract.read 2 fields
    state := ← message? (depth - 1) (State.read (depth - 1)) 3 fields }

end Opening

namespace Draft

/-- The fields that are written. -/
def fields (m : Draft) : List Field :=
  (m.state.map fun s => ofMessage 1 s.fields).toList
    ++ (m.ledger.map fun l => ofMessage 2 l.fields).toList

/-- The message of the fields. -/
def read (depth : Nat) : Reader Draft := fun fields => do
  some {
    state := ← message? (depth - 1) (State.read (depth - 1)) 1 fields
    ledger := ← message? (depth - 1) (Ledger.read (depth - 1)) 2 fields }

end Draft

/-- How deep messages may be nested. -/
def maxDepth : Nat := 100

/-- The message of the bytes, if they have the form of one. -/
def ofBytes? {α : Type} (read : Nat → Reader α) (bytes : Bytes) : Option α := do
  read maxDepth (← readFields maxDepth bytes)

end DebtChannel.Wire.Message
