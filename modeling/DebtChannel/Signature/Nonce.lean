import DebtChannel.Hash.Sha256
import DebtChannel.Curve.Secp256k1

/-!
# The secret number of a signature

Each signature needs a secret number that is never used again. It is drawn from the private key
and the signed hash by the keyed form of SHA-256, so that signing the same hash twice gives the
same signature. Draws that are zero or not below the order of the curve are passed over.
-/

namespace DebtChannel.Signature

/-- The state of the drawing: the key of the keyed hash and the value that it is applied to. -/
structure NonceSource where
  /-- The key of the keyed hash. -/
  key : Bytes
  /-- The value last put out. -/
  value : Bytes

namespace NonceSource

/-- Works more bytes into the state. -/
def stir (source : NonceSource) (input : Bytes) : NonceSource :=
  let key := hmacSha256 source.key (source.value ++ input)
  ⟨key, hmacSha256 key source.value⟩

/-- The state that the seed, a private key followed by a hash, leads to. -/
def start (seed : Bytes) : NonceSource :=
  ((NonceSource.mk (Bytes.zeros 32) (List.replicate 32 1)).stir (0 :: seed)).stir (1 :: seed)

/-- The first usable draw among the next `attempts`. -/
def draw? : (attempts : Nat) → NonceSource → Option Nat
  | 0, _ => none
  | attempts + 1, source =>
      let value := hmacSha256 source.key source.value
      let k := Bytes.ofBigEndian value
      if 0 < k ∧ k < Secp256k1.order then some k
      else draw? attempts (NonceSource.stir ⟨source.key, value⟩ [0])

end NonceSource

/-- The secret number for signing `message` with `key`. One draw in `2 ^ 127` is passed over, so
that eight in a row never are. -/
def nonce? (key message : FixedBytes 32) : Option Nat :=
  NonceSource.draw? 8 (NonceSource.start (key.toList ++ message.toList))

end DebtChannel.Signature
