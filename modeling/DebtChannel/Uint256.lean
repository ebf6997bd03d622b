import DebtChannel.Bytes

/-!
# Amounts

Amounts of an asset, chain ids and channel nonces are unsigned numbers of 256 bits. They travel
as 32 bytes, most significant first, and print in decimal. Sums of amounts stop at the largest
number instead of starting again at zero, because a liability that wraps would disappear.
-/

namespace DebtChannel

/-- An unsigned number of 256 bits. -/
abbrev Uint256 := BitVec 256

namespace Uint256

/-- The largest number. -/
def max : Uint256 := BitVec.allOnes 256

/-- The sum, or the largest number if the sum does not fit. -/
def saturatingAdd (a b : Uint256) : Uint256 :=
  if BitVec.uaddOverflow a b then max else a + b

/-- The 32 bytes of the number, most significant first. -/
def toBytes (a : Uint256) : FixedBytes 32 := FixedBytes.ofNat 32 a.toNat

/-- The number that the bytes stand for, most significant first. -/
def ofBytes (bytes : Bytes) : Uint256 := BitVec.ofNat 256 bytes.ofBigEndian

/-- Decimal text. -/
def display (a : Uint256) : String := toString a.toNat

theorem toNat_saturatingAdd (a b : Uint256) :
    (saturatingAdd a b).toNat = min (a.toNat + b.toNat) max.toNat := by
  have ha := a.isLt
  have hb := b.isLt
  unfold saturatingAdd
  split
  next exceeds =>
    have exceeds : a.toNat + b.toNat ≥ 2 ^ 256 := by simpa [BitVec.uaddOverflow] using exceeds
    rw [max, BitVec.toNat_allOnes]
    omega
  next fits =>
    have fits : ¬ a.toNat + b.toNat ≥ 2 ^ 256 := by simpa [BitVec.uaddOverflow] using fits
    rw [max, BitVec.toNat_allOnes, BitVec.toNat_add]
    omega

theorem toNat_le_max (a : Uint256) : a.toNat ≤ max.toNat := by
  have fits := a.isLt
  rw [max, BitVec.toNat_allOnes]
  omega

theorem saturatingAdd_zero (a : Uint256) : saturatingAdd a 0 = a := by
  apply BitVec.eq_of_toNat_eq
  have nothing : (0 : Uint256).toNat = 0 := rfl
  rw [toNat_saturatingAdd, nothing, Nat.add_zero, Nat.min_eq_left a.toNat_le_max]

/-- The 32 bytes of a number read back as that number. -/
theorem ofBytes_toBytes (a : Uint256) : ofBytes a.toBytes.toList = a := by
  apply BitVec.eq_of_toNat_eq
  have fits := a.isLt
  have size : Nat.pow 256 32 = 2 ^ 256 := by decide
  rw [ofBytes, toBytes, FixedBytes.ofNat, Bytes.ofBigEndian_bigEndian, BitVec.toNat_ofNat, size]
  omega

/-- Up to 32 bytes are read as the number that they stand for. -/
theorem toNat_ofBytes {bytes : Bytes} (h : bytes.length ≤ 32) :
    (ofBytes bytes).toNat = bytes.ofBigEndian := by
  have hroom : Nat.pow 256 bytes.length ≤ Nat.pow 256 32 := Nat.pow_le_pow_right (by decide) h
  have hlt := bytes.ofBigEndian_lt
  have hsize : Nat.pow 256 32 = 2 ^ 256 := by decide
  rw [ofBytes, BitVec.toNat_ofNat]
  exact Nat.mod_eq_of_lt (by omega)

end Uint256

end DebtChannel
