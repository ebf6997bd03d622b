import DebtChannel.Hash.Basic

/-!
# SHA-256 and its keyed form

Signatures are deterministic: the secret number of a signature is drawn by the keyed form of
SHA-256 from the private key and the message. Nothing else here uses this hash.
-/

namespace DebtChannel.Sha256

/-- A word turned right by `count` places, of which there are 1 to 31. -/
def rotateRight (word count : UInt32) : UInt32 := word >>> count ||| word <<< (32 - count)

/-- The eight words that a block is worked into. -/
structure State where
  (a b c d e f g h : UInt32)

/-- The state before the first block. -/
def State.start : State :=
  ⟨0x6a09e667, 0xbb67ae85, 0x3c6ef372, 0xa54ff53a, 0x510e527f, 0x9b05688c, 0x1f83d9ab, 0x5be0cd19⟩

/-- The constants of the 64 rounds. -/
def roundWords : List UInt32 :=
  [0x428a2f98, 0x71374491, 0xb5c0fbcf, 0xe9b5dba5, 0x3956c25b, 0x59f111f1, 0x923f82a4, 0xab1c5ed5,
   0xd807aa98, 0x12835b01, 0x243185be, 0x550c7dc3, 0x72be5d74, 0x80deb1fe, 0x9bdc06a7, 0xc19bf174,
   0xe49b69c1, 0xefbe4786, 0x0fc19dc6, 0x240ca1cc, 0x2de92c6f, 0x4a7484aa, 0x5cb0a9dc, 0x76f988da,
   0x983e5152, 0xa831c66d, 0xb00327c8, 0xbf597fc7, 0xc6e00bf3, 0xd5a79147, 0x06ca6351, 0x14292967,
   0x27b70a85, 0x2e1b2138, 0x4d2c6dfc, 0x53380d13, 0x650a7354, 0x766a0abb, 0x81c2c92e, 0x92722c85,
   0xa2bfe8a1, 0xa81a664b, 0xc24b8b70, 0xc76c51a3, 0xd192e819, 0xd6990624, 0xf40e3585, 0x106aa070,
   0x19a4c116, 0x1e376c08, 0x2748774c, 0x34b0bcb5, 0x391c0cb3, 0x4ed8aa4a, 0x5b9cca4f, 0x682e6ff3,
   0x748f82ee, 0x78a5636f, 0x84c87814, 0x8cc70208, 0x90befffa, 0xa4506ceb, 0xbef9a3f7, 0xc67178f2]

/-- The words of a block, extended by `count` further ones; the newest word comes first. -/
def extend : (count : Nat) → List UInt32 → List UInt32
  | 0, words => words
  | count + 1, words =>
      let w15 := words.getD 14 0
      let w2 := words.getD 1 0
      let s0 := rotateRight w15 7 ^^^ rotateRight w15 18 ^^^ w15 >>> 3
      let s1 := rotateRight w2 17 ^^^ rotateRight w2 19 ^^^ w2 >>> 10
      extend count ((words.getD 15 0 + s0 + words.getD 6 0 + s1) :: words)

/-- One round, with its constant and its word of the block. -/
def State.round (s : State) (step : UInt32 × UInt32) : State :=
  let s1 := rotateRight s.e 6 ^^^ rotateRight s.e 11 ^^^ rotateRight s.e 25
  let choice := (s.e &&& s.f) ^^^ (~~~ s.e &&& s.g)
  let t1 := s.h + s1 + choice + step.1 + step.2
  let s0 := rotateRight s.a 2 ^^^ rotateRight s.a 13 ^^^ rotateRight s.a 22
  let majority := (s.a &&& s.b) ^^^ (s.a &&& s.c) ^^^ (s.b &&& s.c)
  ⟨t1 + (s0 + majority), s.a, s.b, s.c, s.d + t1, s.e, s.f, s.g⟩

/-- Word by word sum. -/
def State.add (s t : State) : State :=
  ⟨s.a + t.a, s.b + t.b, s.c + t.c, s.d + t.d, s.e + t.e, s.f + t.f, s.g + t.g, s.h + t.h⟩

/-- The word of the first four bytes, most significant first. -/
def word (bytes : Bytes) : UInt32 := UInt32.ofNat (Bytes.ofBigEndian (bytes.take 4))

/-- The first `count` words of the bytes; the last word comes first. -/
def wordsOf : (count : Nat) → Bytes → List UInt32 → List UInt32
  | 0, _, words => words
  | count + 1, bytes, words => wordsOf count (bytes.drop 4) (word bytes :: words)

/-- The state after one more block. -/
def State.absorb (s : State) (block : Bytes) : State :=
  s.add ((roundWords.zip (extend 48 (wordsOf 16 block [])).reverse).foldl State.round s)

/-- The bytes of one block. -/
def blockSize : Nat := 64

/-- The message, closed by a one bit, zeros and its length in bits, so that it fills blocks. -/
def close (message : Bytes) : Bytes :=
  let used := (message.length + 9) % blockSize
  message ++ 0x80 :: (Bytes.zeros ((blockSize - used) % blockSize)
    ++ Bytes.bigEndian 8 (8 * message.length))

/-- The state after the first `count` blocks of the bytes. -/
def absorb : (count : Nat) → State → Bytes → State
  | 0, s, _ => s
  | count + 1, s, bytes => absorb count (s.absorb (bytes.take blockSize)) (bytes.drop blockSize)

/-- The bytes of a state. -/
def State.toBytes (s : State) : Bytes :=
  [s.a, s.b, s.c, s.d, s.e, s.f, s.g, s.h].flatMap fun w => Bytes.bigEndian 4 w.toNat

end DebtChannel.Sha256

namespace DebtChannel

/-- The SHA-256 hash of a byte string. -/
def sha256 (message : Bytes) : Bytes :=
  (Sha256.absorb ((message.length + 8) / Sha256.blockSize + 1) .start (Sha256.close message)).toBytes

/-- The keyed form of SHA-256, for keys of at most one block. -/
def hmacSha256 (key message : Bytes) : Bytes :=
  let block := key.padRight Sha256.blockSize
  sha256 (block.map (· ^^^ 0x5c) ++ sha256 (block.map (· ^^^ 0x36) ++ message))

end DebtChannel
