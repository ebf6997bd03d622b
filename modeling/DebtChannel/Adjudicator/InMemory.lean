import DebtChannel.Adjudicator.Basic

/-!
# An adjudicator in memory

A stand-in for the contract, to try channels out without a chain. It keeps the holdings, counts the
transactions that went through, and can be told to be out of reach or to turn transactions down. It
believes everybody: neither what was expected to be held nor any signature is checked.
-/

namespace DebtChannel

/-- The contract in memory. -/
structure InMemoryAdjudicator where
  /-- The chain that it pretends to live on. -/
  chainId : Uint256
  /-- What it holds for each channel, by asset. -/
  held : Std.ExtTreeMap Hash (Std.ExtTreeMap Address Uint256)
  /-- How many transactions went through. -/
  transactions : Nat
  /-- Whether transactions are turned down. -/
  reverting : Bool
  /-- Whether it is out of reach for questions. -/
  offline : Bool

namespace InMemoryAdjudicator

/-- Why it gave no answer. -/
inductive Error where
  /-- A transaction was turned down. -/
  | reverted
  /-- It is out of reach. -/
  | offline
deriving DecidableEq

/-- What the error says to a reader. -/
def Error.message : Error → String
  | reverted => "transaction reverted"
  | offline => "node is offline"

/-- A contract on a chain, without holdings. -/
def new (chainId : Uint256) : InMemoryAdjudicator := ⟨chainId, ∅, 0, false, false⟩

/-- What it holds of an asset for a channel. -/
def holdings (adjudicator : InMemoryAdjudicator) (asset : Address) (channelId : Hash) : Uint256 :=
  (adjudicator.held.getD channelId ∅).getD asset 0

/-- The contract with other holdings. -/
def setHoldings (adjudicator : InMemoryAdjudicator) (asset : Address) (channelId : Hash)
    (amount : Uint256) : InMemoryAdjudicator :=
  let byAsset := adjudicator.held.getD channelId ∅
  { adjudicator with held := adjudicator.held.insert channelId (byAsset.insert asset amount) }

/-- Its answers as long as nothing changes. The receipt of a transaction is its number. -/
def answers (adjudicator : InMemoryAdjudicator) : Adjudicator Nat Error where
  chainId := adjudicator.chainId
  holdings asset channelId :=
    if adjudicator.offline then .error .offline else .ok (adjudicator.holdings asset channelId)
  submit _ :=
    if adjudicator.reverting then .error .reverted else .ok (adjudicator.transactions + 1)

/-- The contract after a call. -/
def apply (adjudicator : InMemoryAdjudicator) (call : Call) : InMemoryAdjudicator :=
  if adjudicator.reverting then adjudicator
  else
    let counted := { adjudicator with transactions := adjudicator.transactions + 1 }
    match call with
    | .deposit _ asset channelId _ amount =>
        counted.setHoldings asset channelId
          ((counted.holdings asset channelId).saturatingAdd amount)
    | .conclude .. => counted

end InMemoryAdjudicator

end DebtChannel
