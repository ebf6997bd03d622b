import DebtChannel.Bytes

/-!
# Hashes

A hash names the thing it was computed from: a channel by its fixed part, a state by all it says.
-/

namespace DebtChannel

/-- The 32 bytes that name a channel, a state or a message. -/
@[ext] structure Hash extends FixedBytes 32
deriving DecidableEq, Inhabited

namespace Hash

/-- The bytes as a hash, if there are 32 of them. -/
def ofList? (bytes : Bytes) : Option Hash := (FixedBytes.ofList? 32 bytes).map Hash.mk

instance : Ord Hash := ⟨compareOn toFixedBytes⟩

instance : Std.TransOrd Hash := inferInstanceAs (Std.TransCmp (compareOn toFixedBytes))

instance : Std.LawfulEqOrd Hash where
  eq_of_compare {a b} h :=
    have bytes : compare a.toFixedBytes b.toFixedBytes = .eq := h
    Hash.ext (congrArg FixedBytes.toList (Std.LawfulEqOrd.compare_eq_iff_eq.mp bytes))

end Hash

end DebtChannel
