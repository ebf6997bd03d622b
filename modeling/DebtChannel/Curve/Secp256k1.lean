/-!
# The curve secp256k1

Points of `y ^ 2 = x ^ 3 + 7` over the integers modulo a prime, with a fixed point that generates
all of them. Coordinates are plain natural numbers below that prime, so that the arithmetic can be
worked out inside a proof. Sums are formed on triples `(x, y, z)`, which stand for the point
`(x / z ^ 2, y / z ^ 3)`, because that saves the division in every step; `z = 0` is the point at
infinity.
-/

namespace DebtChannel.Secp256k1

/-- The prime that coordinates are taken modulo. -/
def fieldPrime : Nat := 0xfffffffffffffffffffffffffffffffffffffffffffffffffffffffefffffc2f

/-- The number of points, also prime. Secret numbers are taken modulo it. -/
def order : Nat := 0xfffffffffffffffffffffffffffffffebaaedce6af48a03bbfd25e8cd0364141

/-- `base ^ exponent` modulo `m`, for exponents of at most `bits` bits. -/
def powMod (m : Nat) : (bits : Nat) → (base exponent : Nat) → Nat
  | 0, _, _ => 1
  | bits + 1, base, exponent =>
      let square := powMod m bits (base * base % m) (exponent / 2)
      if exponent % 2 = 1 then base * square % m else square

/-- The inverse of `a` modulo a prime `m` of 256 bits. -/
def inverse (m a : Nat) : Nat := powMod m 256 a (m - 2)

/-- The difference modulo `m` of two numbers below `m`. -/
def subMod (m a b : Nat) : Nat := (a + (m - b)) % m

/-- A point other than the one at infinity. -/
structure Point where
  (x y : Nat)
deriving DecidableEq

/-- A point given up to a common factor. -/
structure Triple where
  (x y z : Nat)

namespace Triple

/-- The point at infinity. -/
def infinity : Triple := ⟨0, 1, 0⟩

/-- Twice a point. -/
def double (a : Triple) : Triple :=
  if a.z = 0 then infinity
  else
    let y2 := a.y * a.y % fieldPrime
    let s := 4 * a.x * y2 % fieldPrime
    let m := 3 * a.x * a.x % fieldPrime
    let x := subMod fieldPrime (m * m % fieldPrime) (2 * s % fieldPrime)
    let y := subMod fieldPrime (m * subMod fieldPrime s x % fieldPrime)
      (8 * y2 * y2 % fieldPrime)
    ⟨x, y, 2 * a.y * a.z % fieldPrime⟩

/-- The sum of two points. -/
def add (a b : Triple) : Triple :=
  if a.z = 0 then b
  else if b.z = 0 then a
  else
    let az2 := a.z * a.z % fieldPrime
    let bz2 := b.z * b.z % fieldPrime
    let u1 := a.x * bz2 % fieldPrime
    let u2 := b.x * az2 % fieldPrime
    let s1 := a.y * (bz2 * b.z % fieldPrime) % fieldPrime
    let s2 := b.y * (az2 * a.z % fieldPrime) % fieldPrime
    if u1 = u2 then
      if s1 = s2 then a.double else infinity
    else
      let h := subMod fieldPrime u2 u1
      let r := subMod fieldPrime s2 s1
      let h2 := h * h % fieldPrime
      let h3 := h * h2 % fieldPrime
      let v := u1 * h2 % fieldPrime
      let x := subMod fieldPrime (r * r % fieldPrime) ((h3 + 2 * v) % fieldPrime)
      let y := subMod fieldPrime (r * subMod fieldPrime v x % fieldPrime) (s1 * h3 % fieldPrime)
      ⟨x, y, h * (a.z * b.z % fieldPrime) % fieldPrime⟩

/-- The sum of `k` copies of a point, for `k` of at most `bits` bits. -/
def mul : (bits : Nat) → (k : Nat) → Triple → Triple
  | 0, _, _ => infinity
  | bits + 1, k, a =>
      let twice := (mul bits (k / 2) a).double
      if k % 2 = 1 then twice.add a else twice

/-- The point that a triple stands for, none at infinity. -/
def toPoint? (a : Triple) : Option Point :=
  if a.z = 0 then none
  else
    let zInverse := inverse fieldPrime a.z
    let z2 := zInverse * zInverse % fieldPrime
    some ⟨a.x * z2 % fieldPrime, a.y * (z2 * zInverse % fieldPrime) % fieldPrime⟩

end Triple

namespace Point

/-- The generator. -/
def generator : Point where
  x := 0x79be667ef9dcbbac55a06295ce870b07029bfcdb2dce28d959f2815b16f81798
  y := 0x483ada7726a3c4655da4fbfc0e1108a8fd17b448a68554199c47d08ffb10d4b8

/-- The triple of a point. -/
def toTriple (a : Point) : Triple := ⟨a.x, a.y, 1⟩

/-- The point with coordinate `x` whose `y` is odd or even as asked, if `x` belongs to any. -/
def ofX? (x : Nat) (odd : Bool) : Option Point :=
  let square := (x * x % fieldPrime * x + 7) % fieldPrime
  let root := powMod fieldPrime 256 square ((fieldPrime + 1) / 4)
  if root * root % fieldPrime ≠ square then none
  else if (root % 2 == 1) = odd then some ⟨x, root⟩
  else some ⟨x, fieldPrime - root⟩

end Point

/-- The sum of `k` copies of the generator, for `k` of at most 256 bits. -/
def mulGenerator (k : Nat) : Triple := Triple.mul 256 k Point.generator.toTriple

end DebtChannel.Secp256k1
