import DebtChannel.Uint256

/-!
# Signatures

A signature is a pair of numbers `r` and `s` with a byte `v` that picks one of the keys that could
have made it. It travels as 65 bytes in that order. The all-zero signature is no signature at all
and fills the place of a missing one.
-/

namespace DebtChannel

/-- A signature over a hash, with the byte from which its key can be found again. -/
structure Signature where
  /-- The first number, from the point that the secret number of the signature leads to. -/
  r : Uint256
  /-- The second number, which ties the first to the key and to the hash. -/
  s : Uint256
  /-- 27, or 28 if the point behind `r` has an odd second coordinate. -/
  v : UInt8
deriving DecidableEq

namespace Signature

/-- The placeholder of a missing signature. -/
def zero : Signature := ⟨0, 0, 0⟩

instance : Inhabited Signature := ⟨zero⟩

/-- Whether this is the placeholder of a missing signature. -/
def isZero (sig : Signature) : Bool := sig == zero

/-- The 65 bytes of a signature. -/
def toBytes (sig : Signature) : FixedBytes 65 where
  toList := sig.r.toBytes.toList ++ sig.s.toBytes.toList ++ [sig.v]
  length_toList := by simp [FixedBytes.length_toList]

/-- The signature of 64 bytes for the two numbers and a byte `v`. -/
def ofParts (rs : Bytes) (v : UInt8) : Signature :=
  ⟨Uint256.ofBytes (rs.take 32), Uint256.ofBytes (rs.drop 32), v⟩

/-- The bytes as a signature, if there are 65 of them. -/
def ofList? (bytes : Bytes) : Option Signature :=
  if bytes.length = 65 then some (ofParts (bytes.take 64) (bytes.getD 64 0)) else none

/-- Hexadecimal text behind `0x`. -/
def display (sig : Signature) : String := sig.toBytes.display

/-- Why no signature or no signer came out. -/
inductive Error where
  /-- The key has the wrong size, is zero or is not below the order of the curve. -/
  | invalidPrivateKey
  /-- The last byte of the signature is neither 27 nor 28. -/
  | invalidRecoveryId (v : UInt8)
  /-- One of the numbers is zero or not below the order of the curve. -/
  | malformedSignature
  /-- No key leads to the signature. -/
  | recoveryFailed
  /-- No secret number gave a signature. -/
  | signingFailed
deriving DecidableEq

/-- What the error says to a reader. -/
def Error.message : Error → String
  | invalidPrivateKey => "invalid private key"
  | invalidRecoveryId v => s!"invalid recovery id (v = {v.toNat})"
  | malformedSignature => "malformed signature"
  | recoveryFailed => "could not recover public key from signature"
  | signingFailed => "signing failed"

end Signature

end DebtChannel
