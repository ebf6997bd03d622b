import DebtChannel.Proofs.AbiDecodable

/-!
# The layout that contracts read

The writer works out every offset before it writes anything. A contract goes the other way: it has
the bytes, and an offset is right if as many bytes stand in front of the tail it belongs to.
`Layout` says what contracts take for the encoding of an item, as a relation between items and
bytes that knows nothing of the writer and of its sizes: a sequence is its heads followed by its
tails, and the offset of an item is the length of all heads and of the tails before, whatever they
have turned out to be. The knot that this ties, heads that hold the length of the heads, is why it
is a relation.

Two inductions over the item join the two. Whatever the relation admits is what is written
(`Encodes.eq_body`), because it fixes the bytes from the inside out: the tails first, then their
lengths, then the offsets. And what is written is admitted (`encodes_body`), because the sizes that
offsets are added up from are the lengths of what is written. Only the second needs a bound: a size
that does not fit into its slot is written all the same, but does not read as that size.
-/

namespace DebtChannel

namespace Bytes

theorem bigEndian_ofBigEndian {width : Nat} {bytes : Bytes} (h : bytes.length = width) :
    bigEndian width bytes.ofBigEndian = bytes := by
  induction width generalizing bytes with
  | zero => exact (List.eq_nil_of_length_eq_zero h).symm
  | succ width ih =>
      have hne : bytes ≠ [] := by
        rintro rfl
        cases h
      have hinit : bytes.dropLast.length = width := by
        rw [List.length_dropLast, h, Nat.add_sub_cancel]
      have hlast : (bytes.getLast hne).toNat < 256 := (bytes.getLast hne).toNat_lt
      rw [← List.dropLast_concat_getLast hne, ofBigEndian_append_singleton, bigEndian]
      have hfirst : (256 * ofBigEndian bytes.dropLast + (bytes.getLast hne).toNat) / 256
          = ofBigEndian bytes.dropLast := by omega
      have hbyte : UInt8.ofNat (256 * ofBigEndian bytes.dropLast + (bytes.getLast hne).toNat)
          = bytes.getLast hne := by
        apply UInt8.toNat_inj.mp
        rw [UInt8.toNat_ofNat']
        omega
      rw [hfirst, hbyte, ih hinit]

end Bytes

namespace Abi

/-! ## What contracts expect -/

namespace Layout

/-- The items whose size depends on their content. -/
inductive Dynamic : Token → Prop where
  | bytes (content : Bytes) : Dynamic (.bytes content)
  | array (items : List Token) : Dynamic (.array items)
  | tuple {items : List Token} {item : Token} (hmem : item ∈ items) (hitem : Dynamic item) :
      Dynamic (.tuple items)

/-- A number in 32 bytes, most significant byte first. -/
def Number (value : Nat) (out : Bytes) : Prop := out.length = 32 ∧ out.ofBigEndian = value

mutual

/-- `Encodes item out`: the bytes are the item itself. -/
inductive Encodes : Token → Bytes → Prop where
  | word (slot : Slot) : Encodes (.word slot) slot.toList
  -- The size, the content, and as few zeros as fill up the last 32 bytes.
  | bytes {content size : Bytes} {padding : Nat} (hsize : Number content.length size)
      (hfew : padding < 32) (hfull : 32 ∣ content.length + padding) :
      Encodes (.bytes content) (size ++ (content ++ Bytes.zeros padding))
  | array {items : List Token} {count out : Bytes} (hcount : Number items.length count)
      (hitems : Arranges items out) : Encodes (.array items) (count ++ out)
  | tuple {items : List Token} {out : Bytes} (hitems : Arranges items out) :
      Encodes (.tuple items) out

/-- `Arranges items out`: the bytes are the heads and then the tails of the items. -/
inductive Arranges : List Token → Bytes → Prop where
  | intro {items : List Token} {heads tails : Bytes}
      (hplaced : Places heads.length 0 items heads tails) : Arranges items (heads ++ tails)

/-- `Places ahead before items heads tails`: the heads and the tails of the last items of a sequence,
where all its heads take `ahead` bytes and the tails of the items before these take `before`. -/
inductive Places : Nat → Nat → List Token → Bytes → Bytes → Prop where
  | nil {ahead before : Nat} : Places ahead before [] [] []
  | static {ahead before : Nat} {item : Token} {items : List Token} {out heads tails : Bytes}
      (hstatic : ¬ Dynamic item) (hitem : Encodes item out)
      (hitems : Places ahead before items heads tails) :
      Places ahead before (item :: items) (out ++ heads) tails
  | dynamic {ahead before : Nat} {item : Token} {items : List Token}
      {offset out heads tails : Bytes} (hdynamic : Dynamic item)
      (hoffset : Number (ahead + before) offset) (hitem : Encodes item out)
      (hitems : Places ahead (before + out.length) items heads tails) :
      Places ahead before (item :: items) (offset ++ heads) (out ++ tails)

end

end Layout

open Layout

namespace Token

mutual

theorem isDynamic_iff {item : Token} : item.isDynamic = true ↔ Dynamic item := by
  match item with
  | .word _ =>
      rw [isDynamic]
      exact ⟨nofun, nofun⟩
  | .bytes content => exact ⟨fun _ => .bytes content, fun _ => rfl⟩
  | .array items => exact ⟨fun _ => .array items, fun _ => rfl⟩
  | .tuple items =>
      rw [isDynamic, anyDynamic_iff]
      constructor
      · rintro ⟨item, hmem, hitem⟩
        exact .tuple hmem hitem
      · intro h
        cases h with
        | tuple hmem hitem => exact ⟨_, hmem, hitem⟩

theorem anyDynamic_iff {items : List Token} :
    anyDynamic items = true ↔ ∃ item ∈ items, Dynamic item := by
  match items with
  | [] =>
      rw [anyDynamic]
      simp
  | item :: items =>
      rw [anyDynamic, Bool.or_eq_true, isDynamic_iff, anyDynamic_iff]
      simp

end

theorem isDynamic_eq_false_iff {item : Token} : item.isDynamic = false ↔ ¬ Dynamic item := by
  rw [← isDynamic_iff, Bool.not_eq_true]

/-! ## What is written, in bytes -/

/-- Slots hold the bytes and zeros behind them. -/
theorem bytesOf_slots :
    ∀ {count : Nat} {content : Bytes}, content.length ≤ slotSize * count →
      bytesOf (slots count content)
        = content ++ Bytes.zeros (slotSize * count - content.length) := by
  intro count
  induction count with
  | zero =>
      intro content hfits
      have hnone : content = [] := List.eq_nil_of_length_eq_zero (by omega)
      rw [hnone]
      rfl
  | succ count ih =>
      intro content hfits
      unfold slotSize at *
      rw [slots, bytesOf_cons, ih (by rw [List.length_drop]; omega)]
      show content.take 32 ++ Bytes.zeros (32 - (content.take 32).length) ++ _ = _
      rw [List.length_take, List.length_drop]
      rcases Nat.le_total 32 content.length with hfull | hrest
      · -- The first slot is full, so the zeros are those of the rest.
        rw [Nat.min_eq_left hfull, Nat.sub_self]
        show content.take 32 ++ [] ++ _ = _
        rw [List.append_nil, ← List.append_assoc, List.take_append_drop]
        congr 2
        omega
      · rw [Nat.min_eq_right hrest, List.take_of_length_le hrest, List.drop_eq_nil_of_le hrest,
          List.nil_append, List.append_assoc]
        unfold Bytes.zeros
        rw [List.replicate_append_replicate]
        congr 2
        omega

theorem bytesOf_body_array (items : List Token) :
    bytesOf (body (.array items)) = (sizeSlot items.length).toList ++ bytesOf (sequence items) := rfl

theorem bytesOf_body_tuple (items : List Token) :
    bytesOf (body (.tuple items)) = bytesOf (sequence items) := rfl

theorem bytesOf_body_bytes (content : Bytes) :
    bytesOf (body (.bytes content)) = (sizeSlot content.length).toList
      ++ (content ++ Bytes.zeros (slotSize * slotCount content.length - content.length)) := by
  rw [body, bytesOf_cons, bytesOf_slots (le_slotSize_mul_slotCount _)]

end Token

/-! ## Nothing else is admitted -/

namespace Layout

open Token

theorem Number.eq_sizeSlot {value : Nat} {out : Bytes} (h : Number value out) :
    out = (sizeSlot value).toList := by
  obtain ⟨hlength, hvalue⟩ := h
  rw [← Bytes.bigEndian_ofBigEndian hlength, hvalue]
  rfl

/-- Heads that agree on their own length are those that are written. -/
theorem append_eq_sequence {items : List Token} {hs ts : Bytes}
    (hheads : hs = bytesOf (heads (hs.length + 0) items)) (htails : ts = bytesOf (tails items)) :
    hs ++ ts = bytesOf (sequence items) := by
  have hlength : hs.length = headsSize items := by rw [hheads, length_bytesOf_heads]
  rw [hlength, Nat.add_zero] at hheads
  rw [Token.sequence, bytesOf_append, ← hheads, ← htails]

mutual

theorem Encodes.eq_body {item : Token} {out : Bytes} (h : Encodes item out) :
    out = bytesOf item.body := by
  match item, h with
  | .word slot, .word _ => exact (List.append_nil _).symm
  | .bytes content, .bytes hsize hfew hfull =>
      rw [bytesOf_body_bytes, hsize.eq_sizeSlot]
      congr 3
      unfold slotSize slotCount slotSize
      omega
  | .array items, .array hcount (.intro hplaced) =>
      obtain ⟨hheads, htails⟩ := hplaced.eq_heads_tails
      rw [bytesOf_body_array, hcount.eq_sizeSlot, append_eq_sequence hheads htails]
  | .tuple items, .tuple (.intro hplaced) =>
      obtain ⟨hheads, htails⟩ := hplaced.eq_heads_tails
      exact append_eq_sequence hheads htails

theorem Places.eq_heads_tails {ahead before : Nat} {items : List Token} {hs ts : Bytes}
    (h : Places ahead before items hs ts) :
    hs = bytesOf (heads (ahead + before) items) ∧ ts = bytesOf (tails items) := by
  match items, h with
  | [], .nil => exact ⟨rfl, rfl⟩
  | item :: items, .static hstatic hitem hitems =>
      have hstatic : item.isDynamic = false := isDynamic_eq_false_iff.mpr hstatic
      obtain ⟨hheads, htails⟩ := hitems.eq_heads_tails
      rw [heads_of_static hstatic, tails_of_static hstatic, bytesOf_append, ← hitem.eq_body,
        ← hheads]
      exact ⟨rfl, htails⟩
  | item :: items, .dynamic hdynamic hoffset hitem hitems =>
      have hdynamic : item.isDynamic = true := isDynamic_iff.mpr hdynamic
      have hbody := hitem.eq_body
      -- In front of the tails of the other items stands that of this one.
      obtain ⟨hheads, htails⟩ := hitems.eq_heads_tails
      rw [hbody, length_bytesOf_body, ← Nat.add_assoc] at hheads
      rw [heads_of_dynamic hdynamic, tails_of_dynamic hdynamic, bytesOf_cons, bytesOf_append,
        ← hoffset.eq_sizeSlot, ← hheads, ← hbody, ← htails]
      exact ⟨rfl, rfl⟩

end

theorem Arranges.eq_sequence {items : List Token} {out : Bytes} (h : Arranges items out) :
    out = bytesOf (sequence items) := by
  obtain ⟨hplaced⟩ := h
  obtain ⟨hheads, htails⟩ := hplaced.eq_heads_tails
  exact append_eq_sequence hheads htails

/-! ## What is written is admitted -/

theorem number_sizeSlot {value : Nat} (h : value < UInt64.size) :
    Number value (sizeSlot value).toList :=
  ⟨(sizeSlot value).length_toList, ofBigEndian_sizeSlot h⟩

theorem arranges_of_places {items : List Token}
    (h : Places (headsSize items) 0 items (bytesOf (heads (headsSize items + 0) items))
      (bytesOf (tails items))) : Arranges items (bytesOf (sequence items)) := by
  rw [Token.sequence, bytesOf_append]
  refine .intro ?_
  rw [length_bytesOf_heads]
  exact h

mutual

theorem encodes_body {item : Token} (hcounted : Counted item)
    (hsize : item.bodySize < UInt64.size) : Encodes item (bytesOf item.body) := by
  match item with
  | .word slot =>
      rw [show bytesOf (body (.word slot)) = slot.toList from List.append_nil _]
      exact .word slot
  | .bytes content =>
      rw [Counted] at hcounted
      rw [bytesOf_body_bytes]
      exact .bytes (number_sizeSlot hcounted) (by unfold slotSize slotCount slotSize; omega)
        (by unfold slotSize slotCount slotSize; omega)
  | .array items =>
      rw [Counted] at hcounted
      rw [bodySize] at hsize
      have htails := length_tails items
      rw [bytesOf_body_array]
      exact .array (number_sizeSlot hcounted.1)
        (arranges_of_places (places_heads hcounted.2 (Nat.le_refl _) (by omega)))
  | .tuple items =>
      rw [Counted] at hcounted
      rw [bodySize] at hsize
      have htails := length_tails items
      rw [bytesOf_body_tuple]
      exact .tuple (arranges_of_places (places_heads hcounted (Nat.le_refl _) (by omega)))

theorem places_heads {ahead before : Nat} {items : List Token} (hcounted : AllCounted items)
    (hahead : headsSize items ≤ ahead)
    (hsize : ahead + before + slotSize * (tails items).length < UInt64.size) :
    Places ahead before items (bytesOf (heads (ahead + before) items)) (bytesOf (tails items)) := by
  match items with
  | [] => exact .nil
  | item :: items =>
      rw [AllCounted] at hcounted
      rw [headsSize] at hahead
      cases hdynamic : item.isDynamic with
      | false =>
          rw [tails_of_static hdynamic] at hsize
          rw [heads_of_static hdynamic, tails_of_static hdynamic, bytesOf_append]
          have hbody := bodySize_of_static hdynamic
          exact .static (isDynamic_eq_false_iff.mp hdynamic)
            (encodes_body hcounted.1 (by omega)) (places_heads hcounted.2 (by omega) hsize)
      | true =>
          have hbody := length_body item
          rw [tails_of_dynamic hdynamic, List.length_append, Nat.mul_add] at hsize
          rw [heads_of_dynamic hdynamic, tails_of_dynamic hdynamic, bytesOf_cons, bytesOf_append]
          refine .dynamic (isDynamic_iff.mp hdynamic) (number_sizeSlot (by omega))
            (encodes_body hcounted.1 (by omega)) ?_
          rw [length_bytesOf_body, Nat.add_assoc]
          exact places_heads hcounted.2 (by omega) (by omega)

end

theorem arranges_sequence {items : List Token} (hcounted : AllCounted items)
    (hsize : (bytesOf (sequence items)).length < UInt64.size) :
    Arranges items (bytesOf (sequence items)) := by
  have htails := length_tails items
  rw [length_bytesOf_sequence] at hsize
  exact arranges_of_places (places_heads hcounted (Nat.le_refl _) (by omega))

/-! ## Single values and arguments -/

/-- In front of a dynamic value stands an offset, the size of the slot that holds it. -/
theorem encode_of_dynamic {item : Token} (h : Dynamic item) :
    encode item = (sizeSlot slotSize).toList ++ bytesOf item.body := by
  have hdynamic : item.isDynamic = true := isDynamic_iff.mpr h
  rw [encode, Token.sequence, headsSize, headsSize, headSize_of_dynamic hdynamic, Nat.add_zero,
    heads_of_dynamic hdynamic, tails_of_dynamic hdynamic, heads, tails, List.append_nil]
  rfl

theorem encode_of_static {item : Token} (h : ¬ Dynamic item) :
    encode item = bytesOf item.body := by
  have hstatic : item.isDynamic = false := isDynamic_eq_false_iff.mpr h
  rw [encode, Token.sequence, heads_of_static hstatic, tails_of_static hstatic, heads, tails,
    List.append_nil, List.append_nil]

theorem encode_eq_encodeArguments {item : Token}
    (h : ¬ Dynamic item ∨ ∀ items, item ≠ .tuple items) : encode item = encodeArguments item := by
  rcases h with hstatic | hne
  · cases item with
    | tuple items => exact encode_of_static hstatic
    | word slot => rfl
    | bytes content => rfl
    | array items => rfl
  · exact (encodeArguments_of_ne_tuple hne).symm

/-- What is written is the layout that contracts read, and nothing else is. The counts of arrays are
asked to fit into a word of the machine, as those of all lists in memory do, because the size of the
encoding does not tell how many items without fields there are. -/
theorem written_iff_arranged :
    (∀ items, AllCounted items → (bytesOf (sequence items)).length < UInt64.size →
      ∀ out, Arranges items out ↔ out = bytesOf (sequence items)) ∧
    (∀ item, (bytesOf item.body).length = item.bodySize ∧
      ∀ offset, (bytesOf (heads offset [item])).length = item.headSize) ∧
    (∀ items, (bytesOf (sequence items)).length = sequenceSize items ∧
      (bytesOf (sequence items)).length = 32 * (sequence items).length ∧
      ∀ slot ∈ sequence items, slot.toList.length = 32) ∧
    (∀ items, Dynamic (.tuple items) →
      encode (.tuple items) = Bytes.zeros 31 ++ [0x20] ++ encodeArguments (.tuple items)) ∧
    (∀ item, (¬ Dynamic item ∨ ∀ items, item ≠ .tuple items) →
      encode item = encodeArguments item) := by
  refine ⟨?_, ?_, ?_, ?_, ?_⟩
  · intro items hcounted hsize out
    constructor
    · exact fun h => h.eq_sequence
    · rintro rfl
      exact arranges_sequence hcounted hsize
  · intro item
    exact ⟨length_bytesOf_body item, fun offset => length_bytesOf_heads offset [item]⟩
  · intro items
    exact ⟨length_bytesOf_sequence items, length_bytesOf _, fun slot _ => slot.length_toList⟩
  · intro items hdynamic
    have hoffset : (sizeSlot slotSize).toList = Bytes.zeros 31 ++ [0x20] := by decide
    rw [encode_of_dynamic hdynamic, hoffset]
    rfl
  · intro item h
    exact encode_eq_encodeArguments h

/-- The arguments of a call that takes an array of arrays of numbers and an array of texts:
`[[1, 2], [3]]` and `["one", "two", "three"]`. -/
def nested : List Token :=
  [.array [.array [.number 1, .number 2], .array [.number 3]],
    .array [.bytes (Bytes.ofString "one"), .bytes (Bytes.ofString "two"),
      .bytes (Bytes.ofString "three")]]

/-- The two offsets at the front count from the start of the arguments, and the record of the two
is behind an offset of its own. -/
theorem nested_written_iff_arranged :
    AllCounted nested ∧ (bytesOf (sequence nested)).length = 640 ∧
      (sequence nested).take 2 = [sizeSlot 0x40, sizeSlot 0x140] ∧
      Arranges nested (bytesOf (sequence nested)) ∧
      encode (.tuple nested) = Bytes.zeros 31 ++ [0x20] ++ bytesOf (sequence nested) := by
  have hcounted : AllCounted nested := by
    simp only [nested, Token.number, AllCounted, Counted]
    decide
  have hsize : (bytesOf (sequence nested)).length = 640 := by
    rw [length_bytesOf_sequence]
    decide
  have hfits : (bytesOf (sequence nested)).length < UInt64.size := by
    rw [hsize]
    decide
  have hdynamic : Dynamic (.tuple nested) := .tuple (List.mem_cons_self ..) (.array _)
  obtain ⟨harranged, -, -, hoffset, -⟩ := written_iff_arranged
  exact ⟨hcounted, hsize, by decide, (harranged nested hcounted hfits _).mpr rfl,
    hoffset nested hdynamic⟩

end Layout

end Abi

end DebtChannel
