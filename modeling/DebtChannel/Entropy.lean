import DebtChannel.Signature.PrivateKey

/-!
# Random values

Keys, nonces and identifiers can be drawn at random. A source of randomness is an endless sequence
of bytes and a place in it. Values of fixed size take a word of four bytes for each of their bytes
and keep its lowest, which comes first; keys take their 32 bytes in a row, and again the next 32 if
no key comes of them.
-/

namespace DebtChannel

/-- A source of random bytes. -/
structure Entropy where
  /-- The bytes, from the beginning of the source. -/
  byteAt : Nat → UInt8
  /-- How many bytes have been taken. -/
  taken : Nat

namespace Entropy

/-- The source that repeats a script of bytes for ever. -/
def repeating (script : Bytes) : Entropy :=
  ⟨fun i => script.getD (i % script.length) 0, 0⟩

/-- The next bytes, one out of every `stride`. -/
def take (source : Entropy) (stride count : Nat) : Bytes × Entropy :=
  ((List.range count).map fun i => source.byteAt (source.taken + stride * i),
   { source with taken := source.taken + stride * count })

/-- A random value of fixed size. -/
def fixedBytes (source : Entropy) (n : Nat) : FixedBytes n × Entropy :=
  (⟨(source.take 4 n).1, by simp [take]⟩, (source.take 4 n).2)

/-- A random number of 256 bits, such as the nonce of a channel. -/
def uint256 (source : Entropy) : Uint256 × Entropy :=
  let (bytes, rest) := source.fixedBytes 32
  (Uint256.ofBytes bytes.toList, rest)

/-- A random signature, of no use but to fill a place. -/
def signature (source : Entropy) : Signature × Entropy :=
  let (bytes, rest) := source.fixedBytes 65
  (Signature.ofParts (bytes.toList.take 64) (bytes.toList.getD 64 0), rest)

/-- The first private key among the next `attempts` draws. -/
def privateKey? : (attempts : Nat) → Entropy → Option (PrivateKey × Entropy)
  | 0, _ => none
  | attempts + 1, source =>
      let (bytes, rest) := source.take 1 32
      match PrivateKey.ofNat? bytes.ofBigEndian with
      | some key => some (key, rest)
      | none => privateKey? attempts rest

end Entropy

end DebtChannel
