import DebtChannel.Settlement
import DebtChannel.Signature.Transactor

/-!
# The adjudicator

The contract that holds the deposits of channels and pays them out in the end. It belongs to the
outside world: a channel asks it for what it holds and hands in calls, and may get any answer. What
the world answers while one operation of a channel runs is a value of `Adjudicator`; the calls are
handed back as data to whoever runs the operation.
-/

namespace DebtChannel

/-- What a transaction may cost. -/
structure Gas where
  /-- The price of one unit. -/
  price : Uint256
  /-- The most units that may be used. -/
  limit : UInt64
deriving DecidableEq

/-- The terms of a transaction. -/
structure TransactionTerms where
  /-- The account that sends it. -/
  sender : Address
  /-- Who signs for that account. -/
  signer : Transactor
  /-- How much of the native coin goes with it. -/
  value : Uint256
  /-- What it may cost, left to the client if it is not said. -/
  gas : Option Gas
deriving DecidableEq

/-- A transaction for the adjudicator. -/
inductive Call where
  /-- Pays an amount of an asset into a channel, if the contract holds just what is expected. -/
  | deposit (terms : TransactionTerms) (asset : Address) (channelId : Hash)
      (expectedHeld amount : Uint256)
  /-- Ends a channel and pays everything out. -/
  | conclude (terms : TransactionTerms) (settlement : Settlement)
deriving DecidableEq

/-- What the adjudicator answers during one operation: receipts of type `ρ` or errors of type
`ε`. -/
structure Adjudicator (ρ ε : Type) where
  /-- The chain that the contract lives on. -/
  chainId : Uint256
  /-- What the contract holds of an asset for a channel. -/
  holdings : Address → Hash → Except ε Uint256
  /-- What becomes of a call. -/
  submit : Call → Except ε ρ

end DebtChannel
