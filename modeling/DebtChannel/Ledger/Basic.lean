import Std.Data.ExtTreeMap
import DebtChannel.Uint256

/-!
# Liabilities between the participants of a channel

For every ordered pair of participants, the one who owes and the one who is owed, the ledger keeps
two balances of each asset: the amount that has been asked for and is pending, and the amount that
was confirmed last. A balance of zero is never kept, so that ledgers with the same balances are
equal, and a pair without balances is still a pair. Maps here are equal when they hold the same
entries, whatever the order in which these were put in, and they list their entries by key: pairs
by the number of the debtor and then of the creditor, assets by the bytes of their code.
-/

namespace DebtChannel

/-- Names an asset, such as "ETH" or "USDT". -/
abbrev AssetCode := String

/-- An ordered pair of participants, by their places in the channel. -/
@[ext] structure Pair where
  /-- The participant who owes. -/
  debtor : UInt64
  /-- The participant who is owed. -/
  creditor : UInt64
deriving DecidableEq

namespace Pair

instance : Ord Pair := ⟨compareLex (compareOn debtor) (compareOn creditor)⟩

instance : Std.TransOrd Pair :=
  inferInstanceAs (Std.TransCmp (compareLex (compareOn debtor) (compareOn creditor)))

instance : Std.LawfulEqOrd Pair where
  eq_of_compare {a b} h := by
    have both := Ordering.then_eq_eq.mp h
    exact Pair.ext (Std.LawfulEqOrd.compare_eq_iff_eq.mp both.1)
      (Std.LawfulEqOrd.compare_eq_iff_eq.mp both.2)

end Pair

/-- Amounts by asset. -/
abbrev Amounts := Std.ExtTreeMap AssetCode Uint256

namespace Amounts

/-- The amount of an asset, zero if there is none. -/
def amount (amounts : Amounts) (asset : AssetCode) : Uint256 := amounts.getD asset 0

/-- The amounts with more of an asset, up to the largest amount that there is. -/
def add (amounts : Amounts) (asset : AssetCode) (more : Uint256) : Amounts :=
  if more = 0 then amounts
  else amounts.insert asset ((amounts.amount asset).saturatingAdd more)

/-- The amounts with another amount of an asset. -/
def put (amounts : Amounts) (asset : AssetCode) (value : Uint256) : Amounts :=
  if value = 0 then amounts.erase asset else amounts.insert asset value

/-- The sums of two collections of amounts, up to the largest amount that there is. -/
def merge (amounts more : Amounts) : Amounts :=
  more.toList.foldl (fun sums entry => add sums entry.1 entry.2) amounts

/-- Putting an amount changes that asset and no other. -/
theorem amount_put (amounts : Amounts) (asset other : AssetCode) (value : Uint256) :
    (amounts.put asset value).amount other
      = if asset = other then value else amounts.amount other := by
  unfold put amount
  by_cases zero : value = 0
  · rw [if_pos zero, Std.ExtTreeMap.getD_erase]
    simp only [Std.LawfulEqOrd.compare_eq_iff_eq, zero]
  · rw [if_neg zero, Std.ExtTreeMap.getD_insert]
    simp only [Std.LawfulEqOrd.compare_eq_iff_eq]

/-- Adding an amount changes that asset and no other. -/
theorem amount_add (amounts : Amounts) (asset other : AssetCode) (more : Uint256) :
    (amounts.add asset more).amount other
      = if asset = other then (amounts.amount asset).saturatingAdd more
        else amounts.amount other := by
  unfold add
  by_cases zero : more = 0
  · rw [if_pos zero, zero, Uint256.saturatingAdd_zero]
    by_cases same : asset = other
    · rw [if_pos same, same]
    · rw [if_neg same]
  · rw [if_neg zero, amount, Std.ExtTreeMap.getD_insert]
    simp only [Std.LawfulEqOrd.compare_eq_iff_eq]
    rfl

end Amounts

/-- The balances of one pair. -/
structure Balances where
  /-- What has been asked for. -/
  pending : Amounts
  /-- What was confirmed last. -/
  executed : Amounts
deriving DecidableEq

namespace Balances

/-- No balances. -/
def empty : Balances := ⟨∅, ∅⟩

/-- The sums of balances, up to the largest amount that there is. -/
def merge (balances more : Balances) : Balances :=
  ⟨balances.pending.merge more.pending, balances.executed.merge more.executed⟩

end Balances

/-- The liabilities of a channel. -/
structure Ledger where
  /-- The balances of each pair that has been mentioned. -/
  pairs : Std.ExtTreeMap Pair Balances
deriving DecidableEq

namespace Ledger

/-- Why a pending amount could not be taken. -/
inductive Error where
  /-- Nothing was ever asked for between the two. -/
  | noSuchPair (pair : Pair)
  /-- Nothing is pending in the asset. -/
  | noPendingAmount (asset : AssetCode)
  /-- Less is pending than was to be taken. -/
  | amountExceedsPending (asset : AssetCode) (requested pending : Uint256)
deriving DecidableEq

/-- What the error says to a reader. -/
def Error.message : Error → String
  | noSuchPair pair =>
      "no liabilities recorded from participant " ++ toString pair.debtor.toNat
        ++ " to participant " ++ toString pair.creditor.toNat
  | noPendingAmount asset => "no pending liability in " ++ asset
  | amountExceedsPending asset requested pending =>
      "amount " ++ requested.display ++ " exceeds the pending liability of " ++ pending.display
        ++ " " ++ asset

/-- The ledger without pairs. -/
def empty : Ledger := ⟨∅⟩

/-- The balances of a pair, if it has been mentioned. -/
def pair? (ledger : Ledger) (pair : Pair) : Option Balances := ledger.pairs[pair]?

/-- The balances of a pair, none if it has not been mentioned. -/
def balances (ledger : Ledger) (pair : Pair) : Balances := (ledger.pair? pair).getD .empty

/-- The pending amount of an asset. -/
def pending (ledger : Ledger) (pair : Pair) (asset : AssetCode) : Uint256 :=
  (ledger.balances pair).pending.amount asset

/-- The confirmed amount of an asset. -/
def executed (ledger : Ledger) (pair : Pair) (asset : AssetCode) : Uint256 :=
  (ledger.balances pair).executed.amount asset

/-- Whether no pair has been mentioned. -/
def isEmpty (ledger : Ledger) : Bool := ledger.pairs.isEmpty

/-- Whether anything is pending between any two. -/
def hasPending (ledger : Ledger) : Bool :=
  ledger.pairs.toList.any fun entry => !entry.2.pending.isEmpty

/-- The ledger with other balances of a pair. -/
def put (ledger : Ledger) (pair : Pair) (balances : Balances) : Ledger :=
  ⟨ledger.pairs.insert pair balances⟩

/-- Putting balances changes that pair and no other. -/
theorem pair?_put (ledger : Ledger) (pair other : Pair) (balances : Balances) :
    (ledger.put pair balances).pair? other
      = if pair = other then some balances else ledger.pair? other := by
  unfold put pair?
  rw [Std.ExtTreeMap.getElem?_insert]
  simp only [Std.LawfulEqOrd.compare_eq_iff_eq]

/-- The ledger after the debtor was asked for an amount. The pair is mentioned from now on, even if
the amount is zero. -/
def request (ledger : Ledger) (pair : Pair) (asset : AssetCode) (amount : Uint256) : Ledger :=
  let balances := ledger.balances pair
  ledger.put pair { balances with pending := balances.pending.add asset amount }

/-- The balances of a pair after an amount was taken off what is pending. -/
def takePending (ledger : Ledger) (pair : Pair) (asset : AssetCode) (amount : Uint256) :
    Except Error Balances :=
  match ledger.pair? pair with
  | none => .error (.noSuchPair pair)
  | some balances =>
      match balances.pending[asset]? with
      | none => .error (.noPendingAmount asset)
      | some pending =>
          if pending < amount then .error (.amountExceedsPending asset amount pending)
          else .ok { balances with pending := balances.pending.put asset (pending - amount) }

/-- The ledger after an amount was confirmed. It is taken off what is pending and takes the place of
what was confirmed before. -/
def acknowledge (ledger : Ledger) (pair : Pair) (asset : AssetCode) (amount : Uint256) :
    Except Error Ledger :=
  (ledger.takePending pair asset amount).map fun balances =>
    ledger.put pair { balances with executed := balances.executed.put asset amount }

/-- The ledger after an amount that was asked for has been withdrawn. -/
def revert (ledger : Ledger) (pair : Pair) (asset : AssetCode) (amount : Uint256) :
    Except Error Ledger :=
  (ledger.takePending pair asset amount).map (ledger.put pair)

/-- The ledger with all balances of another added. -/
def merge (ledger more : Ledger) : Ledger :=
  more.pairs.toList.foldl
    (fun sums entry => sums.put entry.1 ((sums.balances entry.1).merge entry.2)) ledger

end Ledger

end DebtChannel
