import DebtChannel.Address
import DebtChannel.Hash.Keccak
import DebtChannel.Signature.Basic
import DebtChannel.Signature.Nonce

/-!
# Signing and finding the signer

A private key signs a hash; from the hash and the signature alone the address of the signer is
found again, which is how the adjudicator checks who agreed to a state. States are not signed as
they are: the hash is first wrapped as a personal message, so that a signed state can never be
taken for a signed transaction.
-/

namespace DebtChannel

/-- A number that keys are made of: positive and below the order of the curve. -/
structure PrivateKey where
  /-- The number. -/
  toNat : Nat
  /-- It is not zero. -/
  pos : 0 < toNat
  /-- It is below the order of the curve. -/
  lt_order : toNat < Secp256k1.order
deriving DecidableEq

open Secp256k1 Signature

/-- The address of the account that a public key controls. -/
def Secp256k1.Point.address (key : Point) : Address :=
  let hash := keccak256 (Bytes.bigEndian 32 key.x ++ Bytes.bigEndian 32 key.y)
  ⟨⟨hash.toList.drop 12, by simp [hash.length_toList]⟩⟩

namespace PrivateKey

/-- The key of a number, if it is positive and below the order of the curve. -/
def ofNat? (k : Nat) : Option PrivateKey :=
  if h : 0 < k ∧ k < order then some ⟨k, h.1, h.2⟩ else none

/-- The key that 32 bytes stand for. -/
def ofBytes (bytes : Bytes) : Except Signature.Error PrivateKey :=
  if bytes.length = 32 then (ofNat? bytes.ofBigEndian).elim (.error .invalidPrivateKey) .ok
  else .error .invalidPrivateKey

/-- The public key, the multiple of the generator that the private key counts. The point at
infinity, which no private key leads to, is answered by the generator. -/
def publicKey (key : PrivateKey) : Point := (mulGenerator key.toNat).toPoint?.getD .generator

/-- The address of the account that the key controls. -/
def address (key : PrivateKey) : Address := key.publicKey.address

/-- How a key is shown: by its address, so that no log gives it away. -/
def describe (key : PrivateKey) : String := "Signer \x7b addr: " ++ key.address.display ++ " \x7d"

/-- The signature over a hash that a secret number `k` leads to. Of the two values of `s` that
would do, the lower one is taken, and `v` says which point belongs to it. -/
def signWith? (key : PrivateKey) (hash : Hash) (k : Nat) : Option Signature := do
  let point ← (mulGenerator k).toPoint?
  let r := point.x % order
  let s := inverse order k * ((hash.toNat + r * key.toNat) % order) % order
  if r = 0 ∨ s = 0 then none
  else
    let high := order / 2 < s
    let low := if high then order - s else s
    let odd := (point.y % 2 == 1) != high
    some ⟨BitVec.ofNat 256 r, BitVec.ofNat 256 low, if odd then 28 else 27⟩

/-- The signature over a hash as it is, such as that of a transaction. -/
def signHash (key : PrivateKey) (hash : Hash) : Except Signature.Error Signature :=
  match nonce? (FixedBytes.ofNat 32 key.toNat) hash.toFixedBytes with
  | none => .error .signingFailed
  | some k => (key.signWith? hash k).elim (.error .signingFailed) .ok

end PrivateKey

/-- The hash of the personal message that carries a hash. -/
def Hash.personalMessage (hash : Hash) : Hash :=
  keccak256 (0x19 :: (Bytes.ofString "Ethereum Signed Message:\n32" ++ hash.toList))

/-- The signature over a hash, wrapped as a personal message. -/
def PrivateKey.signMessage (key : PrivateKey) (hash : Hash) : Except Signature.Error Signature :=
  key.signHash hash.personalMessage

namespace Signature

/-- Whether the second coordinate of the point behind `r` is odd, as the last byte tells. -/
def parity (sig : Signature) : Except Error Bool :=
  if sig.v = 27 then .ok false
  else if sig.v = 28 then .ok true
  else .error (.invalidRecoveryId sig.v)

/-- Whether a number can be one of the two of a signature. -/
def isScalar (a : Uint256) : Bool := 0 < a.toNat && a.toNat < order

/-- The public key that makes the signature right for a hash, if there is one. -/
def publicKey? (sig : Signature) (hash : Hash) (odd : Bool) : Option Point := do
  let point ← Point.ofX? sig.r.toNat odd
  let rInverse := inverse order sig.r.toNat
  let u1 := (order - rInverse * hash.toNat % order) % order
  let u2 := rInverse * sig.s.toNat % order
  ((mulGenerator u1).add (Triple.mul 256 u2 point.toTriple)).toPoint?

/-- The address of the account whose key made the signature over a hash, wrapped as a personal
message. -/
def recoverSigner (sig : Signature) (hash : Hash) : Except Error Address := do
  let odd ← sig.parity
  if isScalar sig.r && isScalar sig.s then
    match sig.publicKey? hash.personalMessage odd with
    | some key => .ok key.address
    | none => .error .recoveryFailed
  else .error .malformedSignature

end Signature

end DebtChannel
