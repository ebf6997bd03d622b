import DebtChannel.Ledger.Basic

/-!
# Operations of a ledger, one after the other

All that changes a ledger, as data: four operations, each with its arguments. `step` runs one of
them and says why it was refused, if it was, and what the ledger is afterwards. `run` does so for a
whole list, refused operations included, and keeps every step.
-/

namespace DebtChannel.Ledger

/-- Something that can be done with a ledger. -/
inductive Operation where
  /-- Ask a debtor for an amount. -/
  | request (pair : Pair) (asset : AssetCode) (amount : Uint256)
  /-- Confirm a pending amount. -/
  | acknowledge (pair : Pair) (asset : AssetCode) (amount : Uint256)
  /-- Withdraw a pending amount. -/
  | revert (pair : Pair) (asset : AssetCode) (amount : Uint256)
  /-- Add all balances of another ledger. -/
  | merge (more : Ledger)

/-- The ledger after an operation, if that is not refused. -/
def apply (ledger : Ledger) : Operation → Except Error Ledger
  | .request pair asset amount => .ok (ledger.request pair asset amount)
  | .acknowledge pair asset amount => ledger.acknowledge pair asset amount
  | .revert pair asset amount => ledger.revert pair asset amount
  | .merge more => .ok (ledger.merge more)

/-- An operation that was run. -/
structure Step where
  /-- The ledger before. -/
  before : Ledger
  /-- The operation. -/
  operation : Operation
  /-- Why it was refused, if it was. -/
  refusal? : Option Error
  /-- The ledger afterwards. -/
  after : Ledger

/-- Runs an operation. A refused one leaves the ledger as it is. -/
def step (ledger : Ledger) (operation : Operation) : Step :=
  match ledger.apply operation with
  | .ok after => ⟨ledger, operation, none, after⟩
  | .error cause => ⟨ledger, operation, some cause, ledger⟩

/-- Runs operations one after the other. -/
def run (ledger : Ledger) : List Operation → List Step
  | [] => []
  | operation :: rest => ledger.step operation :: (ledger.step operation).after.run rest

/-- The ledger after the steps of a run that began with it. -/
def afterAll (ledger : Ledger) : List Step → Ledger
  | [] => ledger
  | step :: rest => step.after.afterAll rest

end DebtChannel.Ledger
