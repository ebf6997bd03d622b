import DebtChannel.Bytes

/-!
# Addresses and destinations

An address names an account. A destination says where the money of a channel goes when the
channel is concluded: to an account, whose address then stands behind twelve zero bytes, or to
another channel, whose id takes all 32 bytes.
-/

namespace DebtChannel

/-- The account of a participant, of an asset's contract or of the adjudicator. -/
@[ext] structure Address extends FixedBytes 20
deriving DecidableEq, Inhabited

/-- Where the money of an allocation goes. -/
@[ext] structure Destination extends FixedBytes 32
deriving DecidableEq, Inhabited

namespace Address

/-- The bytes as an address, if there are 20 of them. -/
def ofList? (bytes : Bytes) : Option Address := (FixedBytes.ofList? 20 bytes).map Address.mk

/-- The address of no account, which stands for the native coin among assets. -/
def zero : Address := ⟨FixedBytes.zero 20⟩

/-- The address behind twelve zero bytes. -/
def padded (a : Address) : FixedBytes 32 :=
  ⟨a.toList.padLeft 32, Bytes.length_padLeft (by rw [a.length_toList]; decide)⟩

/-- The destination that pays to the account. -/
def toDestination (a : Address) : Destination := ⟨a.padded⟩

instance : Ord Address := ⟨compareOn toFixedBytes⟩

instance : Std.TransOrd Address := inferInstanceAs (Std.TransCmp (compareOn toFixedBytes))

instance : Std.LawfulEqOrd Address where
  eq_of_compare {a b} h :=
    have bytes : compare a.toFixedBytes b.toFixedBytes = .eq := h
    Address.ext (congrArg FixedBytes.toList (Std.LawfulEqOrd.compare_eq_iff_eq.mp bytes))

end Address

/-- The bytes as a destination, if there are 32 of them. -/
def Destination.ofList? (bytes : Bytes) : Option Destination :=
  (FixedBytes.ofList? 32 bytes).map Destination.mk

end DebtChannel
