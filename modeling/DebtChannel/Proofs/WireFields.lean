import DebtChannel.Wire.Field

/-!
# Fields read back

What `writeAll` puts together, `readFields` takes apart. A field can be written if its number is one
that keys have room for and if it is one of the two kinds in use; numbers and lengths have to be
below `2 ^ 64`, which is what ten places of a varint hold. Lengths are never looked at one by one:
what a field holds is no longer than all fields together.

Reading goes key by key with a count of the keys that may come. Every field takes a byte at least,
so the number of bytes is always count enough, and the induction is over the fields for any count
that is not too small.
-/

namespace DebtChannel.Wire

/-! ## Numbers -/

theorem toNat_ofNat_of_lt {n : Nat} (h : n < 256) : (UInt8.ofNat n).toNat = n := by
  rw [UInt8.toNat_ofNat']
  omega

/-- The last of the places that are left holds one bit, and every other one seven. -/
theorem readVarintIn_varintIn (places : Nat) {n : Nat} (rest : Bytes)
    (h : n < 2 * Nat.pow 128 places) :
    readVarintIn (places + 1) (varintIn (places + 1) n ++ rest) = some (n, rest) := by
  induction places generalizing n with
  | zero =>
      have hone : n < 2 := h
      have hbyte : (UInt8.ofNat n).toNat = n := toNat_ofNat_of_lt (by omega)
      rw [varintIn, if_pos (by omega), List.singleton_append, readVarintIn, hbyte,
        if_pos (by omega), if_neg (by omega)]
  | succ places ih =>
      rw [varintIn]
      split
      · next hlt =>
          have hbyte : (UInt8.ofNat n).toNat = n := toNat_ofNat_of_lt (by omega)
          rw [List.singleton_append, readVarintIn, hbyte, if_pos hlt, if_neg (by omega)]
      · next hge =>
          have hbyte : (UInt8.ofNat (n % 128 + 128)).toNat = n % 128 + 128 :=
            toNat_ofNat_of_lt (by omega)
          have hrest : n / 128 < 2 * Nat.pow 128 places := by
            have hpow : Nat.pow 128 (places + 1) = Nat.pow 128 places * 128 := rfl
            rw [hpow] at h
            omega
          rw [List.cons_append, readVarintIn, hbyte, if_neg (by omega), ih hrest]
          simp only [Option.some.injEq, Prod.mk.injEq, and_true]
          omega

theorem readVarint_varint {n : Nat} (rest : Bytes) (h : n < UInt64.size) :
    readVarint (varint n ++ rest) = some (n, rest) :=
  readVarintIn_varintIn 9 rest h

theorem varint_ne_nil (n : Nat) : varint n ≠ [] := by
  rw [varint, varintIn]
  split <;> exact List.cons_ne_nil _ _

/-- Keys have room for the number. -/
def Field.HasKey (number : Nat) : Prop := 0 < number ∧ 8 * number + 7 < UInt32.size

instance (number : Nat) : Decidable (Field.HasKey number) :=
  inferInstanceAs (Decidable (0 < number ∧ 8 * number + 7 < UInt32.size))

/-- The key of a field says its number and its kind. -/
theorem readKey_varint {number code : Nat} {kind : Kind} (rest : Bytes) (hkey : Field.HasKey number)
    (hcode : code < 8) (hkind : Kind.ofNat? code = some kind) :
    readKey (varint (8 * number + code) ++ rest) = some ((number, kind), rest) := by
  obtain ⟨hpos, hfits⟩ := hkey
  have hsize : UInt32.size < UInt64.size := by decide
  have hmod : (8 * number + code) % 8 = code := by omega
  have hdiv : (8 * number + code) / 8 = number := by omega
  unfold readKey
  rw [readVarint_varint rest (by omega)]
  simp only [bind, Option.bind, hmod, hkind, hdiv]
  rw [if_pos (by omega)]

theorem readBytes_append (bytes rest : Bytes) :
    readBytes bytes.length (bytes ++ rest) = some (bytes, rest) := by
  rw [readBytes, if_pos (by rw [List.length_append]; omega), List.take_left, List.drop_left]

/-! ## Fields -/

namespace Field

/-- A field that can be written, if it is not too long. -/
inductive Writable : Field → Prop where
  /-- The field of a number of 64 bits. -/
  | number {number value : Nat} (hkey : HasKey number) (hvalue : value < UInt64.size) :
      Writable ⟨number, .number value⟩
  /-- The field of a byte string. -/
  | content {number : Nat} {bytes : Bytes} (hkey : HasKey number) :
      Writable ⟨number, .content bytes⟩

theorem writeAll_cons (field : Field) (fields : List Field) :
    writeAll (field :: fields) = field.write ++ writeAll fields := rfl

theorem Writable.write_ne_nil {field : Field} (h : field.Writable) : field.write ≠ [] := by
  cases h with
  | number hkey hvalue => exact List.append_ne_nil_of_left_ne_nil (varint_ne_nil _) _
  | content hkey => exact List.append_ne_nil_of_left_ne_nil (varint_ne_nil _) _

theorem length_le_write (number : Nat) (bytes : Bytes) :
    bytes.length ≤ (write ⟨number, .content bytes⟩).length := by
  simp only [write, List.length_append]
  omega

/-- What a field holds is no longer than all fields. -/
theorem length_le_writeAll {number : Nat} {bytes : Bytes} {fields : List Field}
    (h : ⟨number, .content bytes⟩ ∈ fields) : bytes.length ≤ (writeAll fields).length := by
  induction fields with
  | nil => exact absurd h List.not_mem_nil
  | cons field fields ih =>
      rw [writeAll_cons, List.length_append]
      rcases List.mem_cons.mp h with rfl | hrest
      · have hle := length_le_write number bytes
        omega
      · have hle := ih hrest
        omega

end Field

open DebtChannel.Wire.Field

variable {depth : Nat}

/-- A field that was written is read, and what stands behind it is left. -/
theorem readFieldsIn_write (hdepth : 0 < depth) (count : Nat) {field : Field}
    (hwritable : field.Writable) (hsize : field.write.length < UInt64.size) (rest : Bytes) :
    readFieldsIn depth (count + 1) [] (field.write ++ rest)
      = (readFieldsIn depth count [] rest).map (field :: ·) := by
  -- The reader only opens a key behind a first byte, so there has to be one.
  obtain ⟨b, bytes, hbytes⟩ := List.exists_cons_of_ne_nil
    (List.append_ne_nil_of_left_ne_nil hwritable.write_ne_nil rest)
  rw [hbytes, readFieldsIn, ← hbytes]
  cases hwritable with
  | number hkey hvalue =>
      rw [write, List.append_assoc,
        ← Nat.add_zero (8 * _), readKey_varint _ hkey (by decide) rfl]
      simp only [List.length_nil, hdepth, if_pos, readPayload, readVarint_varint rest hvalue, bind,
        Option.bind]
  | content hkey =>
      have hlength := Nat.lt_of_le_of_lt (length_le_write _ _) hsize
      rw [write, List.append_assoc, List.append_assoc,
        readKey_varint _ hkey (by decide) rfl]
      simp only [List.length_nil, hdepth, if_pos, readPayload, readVarint_varint _ hlength,
        readBytes_append, bind, Option.bind]

theorem readFieldsIn_writeAll (hdepth : 0 < depth) {fields : List Field}
    (hwritable : ∀ field ∈ fields, field.Writable) (hsize : (writeAll fields).length < UInt64.size) :
    ∀ {count : Nat}, fields.length ≤ count →
      readFieldsIn depth count [] (writeAll fields) = some fields := by
  induction fields with
  | nil =>
      intro count _
      cases count with
      | zero => rfl
      | succ count => rfl
  | cons field fields ih =>
      intro count hcount
      rw [writeAll_cons, List.length_append] at hsize
      cases count with
      | zero => exact absurd hcount (Nat.not_succ_le_zero _)
      | succ count =>
          rw [writeAll_cons, readFieldsIn_write hdepth count
            (hwritable field List.mem_cons_self) (by omega)]
          rw [ih (fun other hother => hwritable other (List.mem_cons_of_mem _ hother)) (by omega)
            (Nat.le_of_succ_le_succ hcount)]
          rfl

theorem length_le_length_writeAll {fields : List Field}
    (hwritable : ∀ field ∈ fields, field.Writable) : fields.length ≤ (writeAll fields).length := by
  induction fields with
  | nil => exact Nat.le_refl 0
  | cons field fields ih =>
      have hpos := List.length_pos_iff.mpr (hwritable field List.mem_cons_self).write_ne_nil
      have hrest := ih fun other hother => hwritable other (List.mem_cons_of_mem _ hother)
      rw [writeAll_cons, List.length_append, List.length_cons]
      omega

/-- Only no fields are written as no bytes. -/
theorem writeAll_eq_nil_iff {fields : List Field} (hwritable : ∀ field ∈ fields, field.Writable) :
    writeAll fields = [] ↔ fields = [] := by
  constructor
  · intro h
    have hle := length_le_length_writeAll hwritable
    rw [h] at hle
    exact List.eq_nil_of_length_eq_zero (Nat.le_zero.mp hle)
  · rintro rfl
    rfl

/-- Fields read back as they were written. -/
theorem readFields_writeAll (hdepth : 0 < depth) {fields : List Field}
    (hwritable : ∀ field ∈ fields, field.Writable) (hsize : (writeAll fields).length < UInt64.size) :
    readFields depth (writeAll fields) = some fields :=
  readFieldsIn_writeAll hdepth hwritable hsize (length_le_length_writeAll hwritable)

end DebtChannel.Wire
