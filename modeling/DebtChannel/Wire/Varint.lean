import DebtChannel.Bytes

/-!
# Numbers of variable length

Numbers in messages take as many bytes as they need: seven bits a byte, least significant first,
and the top bit set on every byte but the last. A number of 64 bits takes at most ten bytes, of
which the tenth can only hold the topmost bit. Writing gives the shortest form; reading accepts
longer ones too, up to ten bytes.
-/

namespace DebtChannel.Wire

/-- The form of a number, in at most `places` bytes. -/
def varintIn : (places : Nat) → (n : Nat) → Bytes
  | 0, _ => []
  | places + 1, n =>
      if n < 128 then [UInt8.ofNat n]
      else UInt8.ofNat (n % 128 + 128) :: varintIn places (n / 128)

/-- The form of a number below `2 ^ 64`. -/
def varint (n : Nat) : Bytes := varintIn 10 n

/-- The number at the front of the bytes, in at most `places` bytes of which the last is the tenth,
and what stands behind it. -/
def readVarintIn : (places : Nat) → Bytes → Option (Nat × Bytes)
  | 0, _ => none
  | _ + 1, [] => none
  | places + 1, b :: rest =>
      if b.toNat < 128 then
        if places = 0 ∧ 1 < b.toNat then none else some (b.toNat, rest)
      else
        match readVarintIn places rest with
        | none => none
        | some (n, behind) => some (b.toNat % 128 + 128 * n, behind)

/-- The number at the front of the bytes, and what stands behind it. -/
def readVarint (bytes : Bytes) : Option (Nat × Bytes) := readVarintIn 10 bytes

end DebtChannel.Wire
