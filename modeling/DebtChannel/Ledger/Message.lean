import DebtChannel.Ledger.Basic
import DebtChannel.Wire.Decode

/-!
# Ledgers as messages

Ledgers are written pair by pair and asset by asset, in the order of the keys, so that equal ledgers
have equal bytes. Reading drops amounts of zero and refuses a ledger that mentions a pair twice or
gives an asset two amounts. The empty ledger takes no bytes.
-/

namespace DebtChannel

open Wire (ContentError DecodeError)

namespace Amounts

/-- The amounts as they are written. -/
def toMessages (amounts : Amounts) : List Wire.Message.AssetAmount :=
  amounts.toList.map fun entry => ⟨entry.1, entry.2.toBytes.toList⟩

/-- The amounts read so far with those of further entries. -/
def addMessages (amounts : Amounts) :
    List Wire.Message.AssetAmount → Except ContentError Amounts
  | [] => .ok amounts
  | entry :: rest => do
      let amount ← Wire.uint256 "amount" entry.amount
      if amount = 0 then addMessages amounts rest
      else if entry.asset ∈ amounts then .error (.duplicateAsset entry.asset)
      else addMessages (amounts.insert entry.asset amount) rest

/-- The amounts of a list of entries. -/
def ofMessages (entries : List Wire.Message.AssetAmount) : Except ContentError Amounts :=
  addMessages ∅ entries

end Amounts

namespace Ledger

/-- The ledger as it is written. -/
def toMessage (ledger : Ledger) : Wire.Message.Ledger :=
  ⟨ledger.pairs.toList.map fun entry =>
    ⟨entry.1.debtor, entry.1.creditor, entry.2.pending.toMessages, entry.2.executed.toMessages⟩⟩

/-- The ledger read so far with the pairs of further entries. -/
def addMessages (ledger : Ledger) : List Wire.Message.Liability → Except ContentError Ledger
  | [] => .ok ledger
  | entry :: rest => do
      let pending ← Amounts.ofMessages entry.pending
      let executed ← Amounts.ofMessages entry.executed
      let pair : Pair := ⟨entry.debtor, entry.creditor⟩
      if pair ∈ ledger.pairs then .error (.duplicateLiability entry.debtor entry.creditor)
      else addMessages (ledger.put pair ⟨pending, executed⟩) rest

/-- The ledger of a message. -/
def ofMessage (message : Wire.Message.Ledger) : Except ContentError Ledger :=
  empty.addMessages message.liabilities

/-- The bytes of a ledger. -/
def encode (ledger : Ledger) : Bytes := Wire.Field.writeAll ledger.toMessage.fields

/-- The ledger of the bytes. -/
def decode (bytes : Bytes) : Except DecodeError Ledger :=
  Wire.decodeAny Wire.Message.Ledger.read ofMessage bytes

end Ledger

end DebtChannel
