import DebtChannel.Ledger.Message
import DebtChannel.State.Message

/-!
# Drafts of the next state

A draft is a state that nobody has signed yet, together with the ledger that its data encodes.
Changes of the ledger are made on the draft first; they become part of the state, and so of what is
signed, only when they are approved. A draft travels with both, so that the receiver sees the
changes that are still open. The data of the state has to be a ledger at any time.
-/

namespace DebtChannel

open Wire (DecodeError)

/-- A proposal of the next state. -/
structure Draft where
  /-- The state, as it would be signed. -/
  state : State
  /-- The ledger, with changes that are not part of the state yet. -/
  ledger : Ledger
deriving DecidableEq

namespace Draft

/-- Why the liabilities of a draft were not changed. -/
inductive Error where
  /-- There is no participant with that index. -/
  | unknownParticipant (index : UInt64)
  /-- Nobody owes himself. -/
  | selfLiability (index : UInt64)
  /-- The ledger does not allow it. -/
  | ledger (cause : Ledger.Error)
deriving DecidableEq

/-- What the error says to a reader. -/
def Error.message : Error → String
  | unknownParticipant index =>
      "participant " ++ toString index.toNat ++ " is not part of the channel"
  | selfLiability index => "participant " ++ toString index.toNat ++ " cannot owe itself"
  | ledger cause => cause.message

/-- The draft of a state, without changes of its ledger. -/
def ofState (state : State) : Except DecodeError Draft :=
  (Ledger.decode state.appData).map fun ledger => ⟨state, ledger⟩

/-- The draft of a state with changes of its ledger. -/
def withLedger (state : State) (ledger : Ledger) : Except DecodeError Draft :=
  (Ledger.decode state.appData).map fun _ => ⟨state, ledger⟩

/-- The draft as the last state of its channel. -/
def setFinal (draft : Draft) : Draft :=
  { draft with state := { draft.state with isFinal := true } }

/-- The draft with other data. Changes of the ledger are dropped. -/
def setAppData (draft : Draft) (appData : Bytes) : Except DecodeError Draft :=
  (Ledger.decode appData).map fun ledger => ⟨{ draft.state with appData }, ledger⟩

/-- The first reason why a pair cannot have liabilities in the channel of a draft. -/
def pairError? (draft : Draft) (pair : Pair) : Option Error :=
  let count := draft.state.participants.length
  if count ≤ pair.debtor.toNat then some (.unknownParticipant pair.debtor)
  else if count ≤ pair.creditor.toNat then some (.unknownParticipant pair.creditor)
  else if pair.debtor = pair.creditor then some (.selfLiability pair.debtor)
  else none

/-- The draft after a change of its ledger, if the pair can have liabilities. -/
def changeLedger (draft : Draft) (pair : Pair) (change : Ledger → Except Ledger.Error Ledger) :
    Except Error Draft :=
  match draft.pairError? pair with
  | some cause => .error cause
  | none =>
      match change draft.ledger with
      | .ok ledger => .ok { draft with ledger }
      | .error cause => .error (.ledger cause)

theorem changeLedger_ok {draft : Draft} {pair : Pair} {change : Ledger → Except Ledger.Error Ledger}
    {changed : Draft} (h : draft.changeLedger pair change = .ok changed) :
    ∃ ledger, draft.pairError? pair = none ∧ change draft.ledger = .ok ledger ∧
      changed = { draft with ledger } := by
  unfold changeLedger at h
  split at h
  · cases h
  · next hpair =>
      split at h
      · next ledger hledger => exact ⟨ledger, hpair, hledger, (Except.ok.inj h).symm⟩
      · cases h

/-- The draft after a debtor was asked for an amount. -/
def requestLiability (draft : Draft) (pair : Pair) (asset : AssetCode) (amount : Uint256) :
    Except Error Draft :=
  draft.changeLedger pair fun ledger => .ok (ledger.request pair asset amount)

/-- The draft after a pending amount was confirmed. -/
def acknowledgeLiability (draft : Draft) (pair : Pair) (asset : AssetCode) (amount : Uint256) :
    Except Error Draft :=
  draft.changeLedger pair fun ledger => ledger.acknowledge pair asset amount

/-- The draft after a pending amount was withdrawn. -/
def revertLiability (draft : Draft) (pair : Pair) (asset : AssetCode) (amount : Uint256) :
    Except Error Draft :=
  draft.changeLedger pair fun ledger => ledger.revert pair asset amount

/-- The draft with its ledger written into the state. -/
def approveLiabilities (draft : Draft) : Draft :=
  { draft with state := { draft.state with appData := draft.ledger.encode } }

/-- The draft as it is written. -/
def toMessage (draft : Draft) : Wire.Message.Draft :=
  ⟨some draft.state.toMessage, some draft.ledger.toMessage⟩

/-- The bytes of a draft. -/
def encode (draft : Draft) : Bytes := Wire.Field.writeAll draft.toMessage.fields

/-- The draft of a message. Without a ledger in the message, the ledger is that of the state. -/
def ofMessage (message : Wire.Message.Draft) : Except DecodeError Draft :=
  match message.state with
  | none => .error (.content (.missing "state"))
  | some stateMessage =>
      match State.ofMessage stateMessage with
      | .error cause => .error (.content cause)
      | .ok state =>
          match message.ledger with
          | none => ofState state
          | some ledgerMessage =>
              match Ledger.ofMessage ledgerMessage with
              | .error cause => .error (.content cause)
              | .ok ledger => withLedger state ledger

/-- The draft of the bytes. -/
def decode (bytes : Bytes) : Except DecodeError Draft :=
  if bytes = [] then .error .empty
  else (Wire.Message.ofBytes? Wire.Message.Draft.read bytes).elim (.error .form) ofMessage

end Draft

end DebtChannel
