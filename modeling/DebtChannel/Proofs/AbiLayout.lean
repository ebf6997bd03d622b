import DebtChannel.Abi.Token

/-!
# The sizes that are written first are those that follow

Offsets are worked out before anything is written, from three size functions that never look at a
byte. They are right because each of them follows the writer through its recursion, and that is the
shape of the proofs here: what is written of an item, of a head and of a tail is counted together,
by one induction over the item and the items in it.

Everything is counted in slots first. `bytesOf` multiplies by the size of a slot, and it loses
nothing, because slots are all of one size.
-/

namespace DebtChannel.Abi

theorem length_slots (count : Nat) (content : Bytes) : (slots count content).length = count := by
  induction count generalizing content with
  | zero => rfl
  | succ count ih => rw [slots, List.length_cons, ih]

/-- The slots of a byte string hold all of it. -/
theorem le_slotSize_mul_slotCount (size : Nat) : size ≤ slotSize * slotCount size := by
  unfold slotCount slotSize
  omega

namespace Token

mutual

/-- An item that is not dynamic is written where it stands. -/
theorem bodySize_of_static {item : Token} (h : item.isDynamic = false) :
    item.bodySize = item.headSize := by
  match item with
  | .word _ => rfl
  | .bytes _ => exact absurd h (by rw [isDynamic]; decide)
  | .array _ => exact absurd h (by rw [isDynamic]; decide)
  | .tuple items =>
      rw [isDynamic] at h
      rw [bodySize, headSize, h, sequenceSize_of_static h]
      rfl

theorem sequenceSize_of_static {items : List Token} (h : anyDynamic items = false) :
    sequenceSize items = headsSize items := by
  match items with
  | [] => rfl
  | item :: items =>
      rw [anyDynamic, Bool.or_eq_false_iff] at h
      obtain ⟨hitem, hitems⟩ := h
      rw [sequenceSize, headsSize, hitem, sequenceSize_of_static hitems]
      rfl

end

/-- Of a dynamic item only the offset stands in the head. -/
theorem headSize_of_dynamic {item : Token} (h : item.isDynamic = true) :
    item.headSize = slotSize := by
  cases item with
  | word slot => exact absurd h (by rw [isDynamic]; decide)
  | bytes content => rfl
  | array items => rfl
  | tuple items =>
      rw [isDynamic] at h
      rw [headSize, if_pos h]

section Items

variable {item : Token} {items : List Token} {offset : Nat}

theorem heads_of_dynamic (h : item.isDynamic = true) :
    heads offset (item :: items) = sizeSlot offset :: heads (offset + item.bodySize) items := by
  rw [heads, if_pos h]

theorem heads_of_static (h : item.isDynamic = false) :
    heads offset (item :: items) = item.body ++ heads offset items := by
  rw [heads, h, if_neg Bool.false_ne_true]

theorem tails_of_dynamic (h : item.isDynamic = true) :
    tails (item :: items) = item.body ++ tails items := by
  rw [tails, if_pos h]

theorem tails_of_static (h : item.isDynamic = false) : tails (item :: items) = tails items := by
  rw [tails, h, if_neg Bool.false_ne_true]

end Items

mutual

theorem length_body (item : Token) : slotSize * item.body.length = item.bodySize := by
  match item with
  | .word _ => rfl
  | .bytes content =>
      rw [body, bodySize, List.length_cons, length_slots, Nat.mul_succ]
      omega
  | .array items =>
      rw [body, bodySize, List.length_cons, List.length_append, Nat.mul_succ, Nat.mul_add]
      have hheads := length_heads (headsSize items) items
      have htails := length_tails items
      omega
  | .tuple items =>
      rw [body, bodySize, List.length_append, Nat.mul_add]
      have hheads := length_heads (headsSize items) items
      have htails := length_tails items
      omega

/-- The head is as long as it was taken to be, whatever offsets are written in it. -/
theorem length_heads (offset : Nat) (items : List Token) :
    slotSize * (heads offset items).length = headsSize items := by
  match items with
  | [] => rfl
  | item :: items =>
      rw [headsSize]
      cases hdynamic : item.isDynamic with
      | true =>
          have hrest := length_heads (offset + item.bodySize) items
          have hslot := headSize_of_dynamic hdynamic
          rw [heads_of_dynamic hdynamic, List.length_cons, Nat.mul_succ]
          omega
      | false =>
          have hitem := length_body item
          have hrest := length_heads offset items
          have hhead := bodySize_of_static hdynamic
          rw [heads_of_static hdynamic, List.length_append, Nat.mul_add]
          omega

theorem length_tails (items : List Token) :
    headsSize items + slotSize * (tails items).length = sequenceSize items := by
  match items with
  | [] => rfl
  | item :: items =>
      have hrest := length_tails items
      rw [tails, headsSize, sequenceSize]
      split
      · next hdynamic =>
          have hitem := length_body item
          have hslot := headSize_of_dynamic hdynamic
          rw [List.length_append, Nat.mul_add]
          omega
      · omega

end

theorem length_sequence (items : List Token) :
    slotSize * (sequence items).length = sequenceSize items := by
  rw [sequence, List.length_append, Nat.mul_add, length_heads, length_tails]

/-! ## Bytes -/

theorem bytesOf_cons (slot : Slot) (rest : List Slot) :
    bytesOf (slot :: rest) = slot.toList ++ bytesOf rest := rfl

theorem bytesOf_append (written rest : List Slot) :
    bytesOf (written ++ rest) = bytesOf written ++ bytesOf rest :=
  List.flatMap_append

theorem length_bytesOf (written : List Slot) :
    (bytesOf written).length = slotSize * written.length := by
  induction written with
  | nil => rfl
  | cons slot rest ih =>
      rw [bytesOf_cons, List.length_append, slot.length_toList, ih, List.length_cons]
      unfold slotSize
      omega

theorem bytesOf_injective :
    ∀ {written other : List Slot}, bytesOf written = bytesOf other → written = other := by
  intro written
  induction written with
  | nil =>
      intro other h
      have hlength := congrArg List.length h
      rw [length_bytesOf, length_bytesOf, List.length_nil, Nat.mul_zero] at hlength
      have hzero : other.length = 0 := by
        unfold slotSize at hlength
        omega
      exact (List.eq_nil_of_length_eq_zero hzero).symm
  | cons slot rest ih =>
      intro other h
      cases other with
      | nil =>
          have hlength := congrArg List.length h
          rw [length_bytesOf, length_bytesOf, List.length_cons, List.length_nil] at hlength
          unfold slotSize at hlength
          omega
      | cons slot' rest' =>
          rw [bytesOf_cons, bytesOf_cons] at h
          have hsize : slot.toList.length = slot'.toList.length := by
            rw [slot.length_toList, slot'.length_toList]
          obtain ⟨hslot, hrest⟩ := List.append_inj h hsize
          rw [FixedBytes.ext hslot, ih hrest]

theorem length_bytesOf_body (item : Token) : (bytesOf item.body).length = item.bodySize := by
  rw [length_bytesOf, length_body]

theorem length_bytesOf_heads (offset : Nat) (items : List Token) :
    (bytesOf (heads offset items)).length = headsSize items := by
  rw [length_bytesOf, length_heads]

theorem length_bytesOf_sequence (items : List Token) :
    (bytesOf (sequence items)).length = sequenceSize items := by
  rw [length_bytesOf, length_sequence]

theorem length_encodeArguments_tuple (items : List Token) :
    (encodeArguments (.tuple items)).length = sequenceSize items :=
  length_bytesOf_sequence items

end Token

end DebtChannel.Abi
