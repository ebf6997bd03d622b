import DebtChannel.Hash.Basic

/-!
# Keccak-256

The hash that names channels and states. A state of five rows of five lanes absorbs the message in
blocks of 136 bytes; after each block the permutation stirs all lanes for 24 rounds, and in the end
the first four lanes are read off as the hash. The message is closed with a one bit right behind it
and a one bit at the end of its last block; no further bits stand between the two, which is what
tells Keccak-256 from SHA3-256.

Rows are records and not arrays, so that the hash of a concrete message can be worked out inside a
proof.
-/

namespace DebtChannel.Keccak

/-- Five lanes of 64 bits, those with the same `y`. -/
structure Row where
  (x0 x1 x2 x3 x4 : UInt64)

/-- The 25 lanes of the state, row by row. -/
structure State where
  (y0 y1 y2 y3 y4 : Row)

/-- A word turned left by `count` places, of which there are 1 to 63. -/
def rotateLeft (word count : UInt64) : UInt64 := word <<< count ||| word >>> (64 - count)

namespace Row

/-- All lanes zero. -/
def zero : Row := ⟨0, 0, 0, 0, 0⟩

/-- Lane by lane exclusive or. -/
def xor (r s : Row) : Row :=
  ⟨r.x0 ^^^ s.x0, r.x1 ^^^ s.x1, r.x2 ^^^ s.x2, r.x3 ^^^ s.x3, r.x4 ^^^ s.x4⟩

/-- Combines every lane with the two to its right, the one step that is not linear. -/
def mix (r : Row) : Row :=
  ⟨r.x0 ^^^ (~~~ r.x1 &&& r.x2), r.x1 ^^^ (~~~ r.x2 &&& r.x3), r.x2 ^^^ (~~~ r.x3 &&& r.x4),
   r.x3 ^^^ (~~~ r.x4 &&& r.x0), r.x4 ^^^ (~~~ r.x0 &&& r.x1)⟩

end Row

namespace State

/-- All lanes zero. -/
def zero : State := ⟨.zero, .zero, .zero, .zero, .zero⟩

/-- Lane by lane exclusive or. -/
def xor (s t : State) : State :=
  ⟨s.y0.xor t.y0, s.y1.xor t.y1, s.y2.xor t.y2, s.y3.xor t.y3, s.y4.xor t.y4⟩

/-- Adds to every lane the parity of the two columns beside it. -/
def mixColumns (s : State) : State :=
  let parity := s.y0.xor (s.y1.xor (s.y2.xor (s.y3.xor s.y4)))
  let effect : Row :=
    ⟨parity.x4 ^^^ rotateLeft parity.x1 1, parity.x0 ^^^ rotateLeft parity.x2 1,
     parity.x1 ^^^ rotateLeft parity.x3 1, parity.x2 ^^^ rotateLeft parity.x4 1,
     parity.x3 ^^^ rotateLeft parity.x0 1⟩
  ⟨s.y0.xor effect, s.y1.xor effect, s.y2.xor effect, s.y3.xor effect, s.y4.xor effect⟩

/-- Turns every lane by its own count and moves lane `(x, y)` to `(y, 2 * x + 3 * y)`. -/
def scatter (s : State) : State :=
  ⟨⟨s.y0.x0, rotateLeft s.y1.x1 44, rotateLeft s.y2.x2 43, rotateLeft s.y3.x3 21,
    rotateLeft s.y4.x4 14⟩,
   ⟨rotateLeft s.y0.x3 28, rotateLeft s.y1.x4 20, rotateLeft s.y2.x0 3, rotateLeft s.y3.x1 45,
    rotateLeft s.y4.x2 61⟩,
   ⟨rotateLeft s.y0.x1 1, rotateLeft s.y1.x2 6, rotateLeft s.y2.x3 25, rotateLeft s.y3.x4 8,
    rotateLeft s.y4.x0 18⟩,
   ⟨rotateLeft s.y0.x4 27, rotateLeft s.y1.x0 36, rotateLeft s.y2.x1 10, rotateLeft s.y3.x2 15,
    rotateLeft s.y4.x3 56⟩,
   ⟨rotateLeft s.y0.x2 62, rotateLeft s.y1.x3 55, rotateLeft s.y2.x4 39, rotateLeft s.y3.x0 41,
    rotateLeft s.y4.x1 2⟩⟩

/-- Mixes every row. -/
def mixRows (s : State) : State := ⟨s.y0.mix, s.y1.mix, s.y2.mix, s.y3.mix, s.y4.mix⟩

/-- One round; its word goes into the first lane. -/
def round (s : State) (word : UInt64) : State :=
  let mixed := s.mixColumns.scatter.mixRows
  { mixed with y0 := { mixed.y0 with x0 := mixed.y0.x0 ^^^ word } }

/-- The words that make the rounds differ from each other. -/
def roundWords : List UInt64 :=
  [0x0000000000000001, 0x0000000000008082, 0x800000000000808A, 0x8000000080008000,
   0x000000000000808B, 0x0000000080000001, 0x8000000080008081, 0x8000000000008009,
   0x000000000000008A, 0x0000000000000088, 0x0000000080008009, 0x000000008000000A,
   0x000000008000808B, 0x800000000000008B, 0x8000000000008089, 0x8000000000008003,
   0x8000000000008002, 0x8000000000000080, 0x000000000000800A, 0x800000008000000A,
   0x8000000080008081, 0x8000000000008080, 0x0000000080000001, 0x8000000080008008]

/-- The permutation of the state. -/
def permute (s : State) : State := roundWords.foldl round s

end State

/-- The bytes of one block. -/
def rate : Nat := 136

/-- The word of up to eight bytes, least significant byte first. -/
def littleEndian (bytes : Bytes) : UInt64 :=
  bytes.foldr (fun b word => word <<< 8 ||| b.toUInt64) 0

/-- The eight bytes of a word, least significant byte first. -/
def wordBytes (word : UInt64) : Bytes :=
  [word.toUInt8, (word >>> 8).toUInt8, (word >>> 16).toUInt8, (word >>> 24).toUInt8,
   (word >>> 32).toUInt8, (word >>> 40).toUInt8, (word >>> 48).toUInt8, (word >>> 56).toUInt8]

/-- The row of the five words that begin at byte `start`; words beyond the end are zero. -/
def Row.ofBytes (bytes : Bytes) (start : Nat) : Row :=
  let word := fun i => littleEndian ((bytes.drop (start + 8 * i)).take 8)
  ⟨word 0, word 1, word 2, word 3, word 4⟩

/-- A block spread over the lanes; the lanes that it does not reach are zero. -/
def State.ofBlock (block : Bytes) : State :=
  ⟨Row.ofBytes block 0, Row.ofBytes block 40, Row.ofBytes block 80, Row.ofBytes block 120,
   Row.ofBytes block 160⟩

/-- The message, closed so that it fills whole blocks. -/
def close (message : Bytes) : Bytes :=
  match rate - 1 - message.length % rate with
  | 0 => message ++ [0x81]
  | gap + 1 => message ++ 0x01 :: (Bytes.zeros gap ++ [0x80])

/-- The state after the first `count` blocks of the bytes. -/
def absorb : (count : Nat) → State → Bytes → State
  | 0, s, _ => s
  | count + 1, s, bytes =>
      absorb count (s.xor (State.ofBlock (bytes.take rate))).permute (bytes.drop rate)

/-- The hash read off a state: its first four lanes. -/
def State.hash (s : State) : Hash where
  toList := wordBytes s.y0.x0 ++ wordBytes s.y0.x1 ++ wordBytes s.y0.x2 ++ wordBytes s.y0.x3
  length_toList := rfl

end DebtChannel.Keccak

namespace DebtChannel

/-- The Keccak-256 hash of a byte string. -/
def keccak256 (message : Bytes) : Hash :=
  (Keccak.absorb (message.length / Keccak.rate + 1) .zero (Keccak.close message)).hash

end DebtChannel
