/-!
# Byte strings and numbers in big-endian form

Everything that leaves this library, hashes, encodings and messages, is a byte string. A byte
string is a plain list, because the proofs take it apart from the front and put it together by
appending. Numbers are written big-endian: `bigEndian width n` writes the low `width` bytes of
`n`, and `ofBigEndian` reads any byte string back as a number. The two are inverse to each other
on byte strings of the right length.
-/

namespace DebtChannel

/-- A string of bytes. -/
abbrev Bytes := List UInt8

namespace Bytes

/-- The two lowercase hexadecimal digits of a byte. -/
def hexDigits (b : UInt8) : List Char :=
  [Nat.digitChar (b.toNat / 16), Nat.digitChar (b.toNat % 16)]

/-- Lowercase hexadecimal text, two digits a byte, without a mark in front. -/
def toHex (bytes : Bytes) : String :=
  String.ofList (bytes.flatMap hexDigits)

/-- The number that a byte string stands for, most significant byte first. -/
def ofBigEndian (bytes : Bytes) : Nat :=
  bytes.foldl (fun n b => 256 * n + b.toNat) 0

/-- The low `width` bytes of `n`, most significant byte first. -/
def bigEndian : (width : Nat) → (n : Nat) → Bytes
  | 0, _ => []
  | width + 1, n => bigEndian width (n / 256) ++ [UInt8.ofNat n]

/-- `count` zero bytes. -/
def zeros (count : Nat) : Bytes := List.replicate count 0

/-- The bytes with zeros in front, so that there are `width` of them. -/
def padLeft (width : Nat) (bytes : Bytes) : Bytes := zeros (width - bytes.length) ++ bytes

/-- The bytes with zeros behind, so that there are `width` of them. -/
def padRight (width : Nat) (bytes : Bytes) : Bytes := bytes ++ zeros (width - bytes.length)

/-- The UTF-8 form of a text. -/
def ofString (text : String) : Bytes := text.toUTF8.data.toList

/-- The text that the bytes are the UTF-8 form of, if they are one. -/
def toString? (bytes : Bytes) : Option String := String.fromUTF8? bytes.toByteArray

@[simp] theorem length_bigEndian (width n : Nat) : (bigEndian width n).length = width := by
  induction width generalizing n with
  | zero => rfl
  | succ width ih => simp [bigEndian, ih]

@[simp] theorem length_zeros (count : Nat) : (zeros count).length = count := by
  simp [zeros]

theorem length_padLeft {width : Nat} {bytes : Bytes} (h : bytes.length ≤ width) :
    (padLeft width bytes).length = width := by
  simp [padLeft]; omega

theorem length_padRight {width : Nat} {bytes : Bytes} (h : bytes.length ≤ width) :
    (padRight width bytes).length = width := by
  simp [padRight]; omega

@[simp] theorem ofBigEndian_append_singleton (bytes : Bytes) (b : UInt8) :
    ofBigEndian (bytes ++ [b]) = 256 * ofBigEndian bytes + b.toNat := by
  simp [ofBigEndian]

/-- Reading what was written gives the number back, less what did not fit. -/
theorem ofBigEndian_bigEndian (width n : Nat) :
    ofBigEndian (bigEndian width n) = n % Nat.pow 256 width := by
  induction width generalizing n with
  | zero => simp [bigEndian, ofBigEndian, Nat.mod_one]
  | succ width ih =>
      have step : Nat.pow 256 (width + 1) = 256 * Nat.pow 256 width := Nat.mul_comm _ _
      rw [bigEndian, ofBigEndian_append_singleton, ih, step, Nat.mod_mul, UInt8.toNat_ofNat']
      omega

/-- A byte string stands for a number that its bytes have room for. -/
theorem ofBigEndian_lt (bytes : Bytes) : ofBigEndian bytes < Nat.pow 256 bytes.length := by
  -- What has been read so far is moved up by a byte for each byte to come.
  have hfrom : ∀ (rest : Bytes) (n : Nat),
      rest.foldl (fun n b => 256 * n + b.toNat) n < Nat.pow 256 rest.length * (n + 1) := by
    intro rest
    induction rest with
    | nil => intro n; exact Nat.lt_of_lt_of_eq (Nat.lt_succ_self n) (Nat.one_mul _).symm
    | cons b rest ih =>
        intro n
        have hbyte := b.toNat_lt
        have hstep : 256 * n + b.toNat + 1 ≤ 256 * (n + 1) := by omega
        rw [List.foldl_cons]
        refine Nat.lt_of_lt_of_le (ih _) ?_
        show _ ≤ Nat.pow 256 rest.length * 256 * (n + 1)
        rw [Nat.mul_assoc]
        exact Nat.mul_le_mul_left _ hstep
  exact Nat.lt_of_lt_of_eq (hfrom bytes 0) (Nat.mul_one _)

/-- The UTF-8 form of a text reads back as that text. -/
theorem toString?_ofString (text : String) : toString? (ofString text) = some text := by
  have h : (ofString text).toByteArray = text.toUTF8 := by
    apply ByteArray.ext
    simp [ofString]
  unfold toString? String.fromUTF8?
  rw [h, String.toUTF8_eq_toByteArray, dif_pos text.isValidUTF8]
  rfl

end Bytes

/-- Exactly `n` bytes. -/
@[ext] structure FixedBytes (n : Nat) where
  /-- The bytes. -/
  toList : Bytes
  /-- There are `n` of them. -/
  length_toList : toList.length = n
deriving DecidableEq

namespace FixedBytes

variable {n : Nat}

/-- The bytes as a value of fixed size, if their number is right. -/
def ofList? (n : Nat) (bytes : Bytes) : Option (FixedBytes n) :=
  if h : bytes.length = n then some ⟨bytes, h⟩ else none

theorem ofList?_toList (bytes : FixedBytes n) : ofList? n bytes.toList = some bytes := by
  rw [ofList?, dif_pos bytes.length_toList]

/-- All bytes zero. -/
def zero (n : Nat) : FixedBytes n := ⟨Bytes.zeros n, Bytes.length_zeros n⟩

/-- Whether all bytes are zero. -/
def isZero (bytes : FixedBytes n) : Bool := bytes.toList.all (· == 0)

/-- The bytes of a number, most significant first. -/
def ofNat (n : Nat) (value : Nat) : FixedBytes n :=
  ⟨Bytes.bigEndian n value, Bytes.length_bigEndian n value⟩

/-- The number that the bytes stand for, most significant first. -/
def toNat (bytes : FixedBytes n) : Nat := Bytes.ofBigEndian bytes.toList

/-- Hexadecimal text behind `0x`. -/
def display (bytes : FixedBytes n) : String := "0x" ++ bytes.toList.toHex

instance : Inhabited (FixedBytes n) := ⟨zero n⟩

instance : Ord (FixedBytes n) := ⟨compareOn toList⟩

instance : Std.TransOrd (FixedBytes n) := inferInstanceAs (Std.TransCmp (compareOn toList))

instance : Std.LawfulEqOrd (FixedBytes n) where
  eq_of_compare {a b} h :=
    have bytes : compare a.toList b.toList = .eq := h
    FixedBytes.ext (Std.LawfulEqOrd.compare_eq_iff_eq.mp bytes)

end FixedBytes

end DebtChannel
