import DebtChannel.Proofs.AbiLayout

/-!
# What was written can be told from its bytes

Nothing in the encoding says where an item ends, or whether a slot holds a number or an offset. It
is the type that tells, so items are compared at one type: `HasKind` is what a reader of the bytes
knows in advance. Knowing that, no item can be mistaken for another one, even if the bytes go on
after it (`body_append_inj`).

The proof never looks at an offset. The types alone say how long a head is, so two equal sequences
have equal heads and equal tails; and then the items are found one by one, the static ones in the
heads and the dynamic ones in the tails, both from the front, each leaving the rest for those after
it. The size of bytes and the number of items come first in a body, and they decide how much of it
belongs to the content, so it is enough that they fit into a word of the machine.
-/

namespace DebtChannel.Abi

/-- The types of items. -/
inductive Kind where
  | word
  | bytes
  | array (item : Kind)
  | tuple (items : List Kind)

namespace Token

mutual

/-- Whether the item is of a type. -/
def HasKind : Kind → Token → Prop
  | .word, .word _ => True
  | .bytes, .bytes _ => True
  | .array kind, .array items => HaveKinds (List.replicate items.length kind) items
  | .tuple kinds, .tuple items => HaveKinds kinds items
  | _, _ => False

/-- Whether the items are of the types, one by one. -/
def HaveKinds : List Kind → List Token → Prop
  | [], [] => True
  | kind :: kinds, item :: items => HasKind kind item ∧ HaveKinds kinds items
  | _, _ => False

end

mutual

/-- Whether every size in the item fits into a word of the machine. -/
def Counted : Token → Prop
  | .word _ => True
  | .bytes content => content.length < UInt64.size
  | .array items => items.length < UInt64.size ∧ AllCounted items
  | .tuple items => AllCounted items

/-- Whether this is so for all items. -/
def AllCounted : List Token → Prop
  | [] => True
  | item :: items => Counted item ∧ AllCounted items

end

/-! ## The type says what the head looks like -/

mutual

theorem head_eq_of_hasKind {kind : Kind} {x y : Token} (hx : HasKind kind x) (hy : HasKind kind y) :
    x.isDynamic = y.isDynamic ∧ x.headSize = y.headSize := by
  match kind, x, y with
  | .word, .word _, .word _ => exact ⟨rfl, rfl⟩
  | .bytes, .bytes _, .bytes _ => exact ⟨rfl, rfl⟩
  | .array _, .array _, .array _ => exact ⟨rfl, rfl⟩
  | .tuple kinds, .tuple xs, .tuple ys =>
      rw [HasKind] at hx hy
      obtain ⟨hdynamic, hsize⟩ := heads_eq_of_haveKinds hx hy
      rw [isDynamic, isDynamic, headSize, headSize, hdynamic, hsize]
      exact ⟨rfl, rfl⟩

theorem heads_eq_of_haveKinds {kinds : List Kind} {xs ys : List Token} (hx : HaveKinds kinds xs)
    (hy : HaveKinds kinds ys) : anyDynamic xs = anyDynamic ys ∧ headsSize xs = headsSize ys := by
  match kinds, xs, ys with
  | [], [], [] => exact ⟨rfl, rfl⟩
  | kind :: kinds, x :: xs, y :: ys =>
      rw [HaveKinds] at hx hy
      obtain ⟨hdynamic, hsize⟩ := head_eq_of_hasKind hx.1 hy.1
      obtain ⟨hdynamics, hsizes⟩ := heads_eq_of_haveKinds hx.2 hy.2
      rw [anyDynamic, anyDynamic, headsSize, headsSize, hdynamic, hdynamics, hsize, hsizes]
      exact ⟨rfl, rfl⟩

end

/-! ## From the bytes back to the item -/

theorem ofBigEndian_sizeSlot {size : Nat} (h : size < UInt64.size) :
    (sizeSlot size).toList.ofBigEndian = size := by
  have hfits : UInt64.size < Nat.pow 256 32 := by decide
  show (Bytes.bigEndian 32 size).ofBigEndian = size
  rw [Bytes.ofBigEndian_bigEndian, Nat.mod_eq_of_lt (by omega)]

theorem sizeSlot_injective {a b : Nat} (ha : a < UInt64.size) (hb : b < UInt64.size)
    (h : sizeSlot a = sizeSlot b) : a = b := by
  rw [← ofBigEndian_sizeSlot ha, h, ofBigEndian_sizeSlot hb]

/-- Bytes of one size are the same if their slots are; the zeros that fill up the last slot are
behind the bytes of both. -/
theorem slots_append_inj :
    ∀ {count : Nat} {content other : Bytes} {r s : List Slot}, content.length = other.length →
      content.length ≤ slotSize * count →
      slots count content ++ r = slots count other ++ s → content = other ∧ r = s := by
  intro count
  induction count with
  | zero =>
      intro content other r s hlength hfits h
      have hzero : content.length = 0 := by omega
      rw [List.eq_nil_of_length_eq_zero hzero,
        List.eq_nil_of_length_eq_zero (hlength.symm.trans hzero)]
      exact ⟨rfl, h⟩
  | succ count ih =>
      intro content other r s hlength hfits h
      rw [slots, slots, List.cons_append, List.cons_append] at h
      obtain ⟨hslot, hrest⟩ := List.cons.inj h
      have hpadded : Bytes.padRight 32 (content.take 32) = Bytes.padRight 32 (other.take 32) :=
        congrArg FixedBytes.toList hslot
      have htake : (content.take 32).length = (other.take 32).length := by
        rw [List.length_take, List.length_take, hlength]
      obtain ⟨hfirst, -⟩ := List.append_inj hpadded htake
      have hdrop : (content.drop 32).length = (other.drop 32).length := by
        rw [List.length_drop, List.length_drop, hlength]
      have hleft : (content.drop 32).length ≤ slotSize * count := by
        rw [List.length_drop]
        unfold slotSize at *
        omega
      obtain ⟨hsecond, hrs⟩ := ih hdrop hleft hrest
      refine ⟨?_, hrs⟩
      rw [← List.take_append_drop 32 content, hfirst, hsecond, List.take_append_drop]

theorem heads_eq_and_tails_eq {kinds : List Kind} {xs ys : List Token} {r s : List Slot}
    (hx : HaveKinds kinds xs) (hy : HaveKinds kinds ys)
    (h : heads (headsSize xs) xs ++ tails xs ++ r = heads (headsSize ys) ys ++ tails ys ++ s) :
    heads (headsSize xs) xs = heads (headsSize ys) ys ∧ tails xs ++ r = tails ys ++ s := by
  have hsize : headsSize xs = headsSize ys := (heads_eq_of_haveKinds hx hy).2
  have hlength : (heads (headsSize xs) xs).length = (heads (headsSize ys) ys).length := by
    have hxs := length_heads (headsSize xs) xs
    have hys := length_heads (headsSize ys) ys
    unfold slotSize at hxs hys
    omega
  rw [List.append_assoc, List.append_assoc] at h
  exact List.append_inj h hlength

mutual

/-- No item begins like another one of its type and then goes on differently. -/
theorem body_append_inj {kind : Kind} {x y : Token} {r s : List Slot} (hx : HasKind kind x)
    (hy : HasKind kind y) (hxc : Counted x) (hyc : Counted y)
    (h : x.body ++ r = y.body ++ s) : x = y ∧ r = s := by
  match kind, x, y with
  | .word, .word a, .word b =>
      rw [body, body] at h
      obtain ⟨hslot, hrest⟩ := List.cons.inj h
      exact ⟨congrArg word hslot, hrest⟩
  | .bytes, .bytes a, .bytes b =>
      rw [Counted] at hxc hyc
      rw [body, body, List.cons_append, List.cons_append] at h
      obtain ⟨hslot, hrest⟩ := List.cons.inj h
      have hlength : a.length = b.length := sizeSlot_injective hxc hyc hslot
      rw [← hlength] at hrest
      obtain ⟨hcontent, hrs⟩ := slots_append_inj hlength (le_slotSize_mul_slotCount _) hrest
      exact ⟨congrArg bytes hcontent, hrs⟩
  | .array kind, .array xs, .array ys =>
      rw [HasKind] at hx hy
      rw [Counted] at hxc hyc
      rw [body, body, List.cons_append, List.cons_append] at h
      obtain ⟨hslot, hrest⟩ := List.cons.inj h
      have hlength : xs.length = ys.length := sizeSlot_injective hxc.1 hyc.1 hslot
      rw [← hlength] at hy
      obtain ⟨hheads, htails⟩ := heads_eq_and_tails_eq hx hy hrest
      obtain ⟨hitems, hrs⟩ := items_inj hx hy hxc.2 hyc.2 hheads htails
      exact ⟨congrArg array hitems, hrs⟩
  | .tuple kinds, .tuple xs, .tuple ys =>
      rw [HasKind] at hx hy
      rw [Counted] at hxc hyc
      rw [body, body] at h
      obtain ⟨hheads, htails⟩ := heads_eq_and_tails_eq hx hy h
      obtain ⟨hitems, hrs⟩ := items_inj hx hy hxc hyc hheads htails
      exact ⟨congrArg tuple hitems, hrs⟩

/-- The items are found from the front, the static ones in the head and the others in the tail. -/
theorem items_inj {kinds : List Kind} {xs ys : List Token} {offset offset' : Nat}
    {r s : List Slot} (hx : HaveKinds kinds xs) (hy : HaveKinds kinds ys) (hxc : AllCounted xs)
    (hyc : AllCounted ys) (hheads : heads offset xs = heads offset' ys)
    (htails : tails xs ++ r = tails ys ++ s) : xs = ys ∧ r = s := by
  match kinds, xs, ys with
  | [], [], [] => exact ⟨rfl, htails⟩
  | kind :: kinds, x :: xs, y :: ys =>
      rw [HaveKinds] at hx hy
      rw [AllCounted] at hxc hyc
      have hsame : x.isDynamic = y.isDynamic := (head_eq_of_hasKind hx.1 hy.1).1
      cases hdynamic : y.isDynamic with
      | true =>
          rw [hdynamic] at hsame
          rw [heads_of_dynamic hsame, heads_of_dynamic hdynamic] at hheads
          rw [tails_of_dynamic hsame, tails_of_dynamic hdynamic] at htails
          obtain ⟨-, hheads⟩ := List.cons.inj hheads
          rw [List.append_assoc, List.append_assoc] at htails
          obtain ⟨hitem, htails⟩ := body_append_inj hx.1 hy.1 hxc.1 hyc.1 htails
          obtain ⟨hitems, hrs⟩ := items_inj hx.2 hy.2 hxc.2 hyc.2 hheads htails
          exact ⟨by rw [hitem, hitems], hrs⟩
      | false =>
          rw [hdynamic] at hsame
          rw [heads_of_static hsame, heads_of_static hdynamic] at hheads
          rw [tails_of_static hsame, tails_of_static hdynamic] at htails
          obtain ⟨hitem, hheads⟩ := body_append_inj hx.1 hy.1 hxc.1 hyc.1 hheads
          obtain ⟨hitems, hrs⟩ := items_inj hx.2 hy.2 hxc.2 hyc.2 hheads htails
          exact ⟨by rw [hitem, hitems], hrs⟩

end

theorem sequence_injective {kinds : List Kind} {xs ys : List Token} (hx : HaveKinds kinds xs)
    (hy : HaveKinds kinds ys) (hxc : AllCounted xs) (hyc : AllCounted ys)
    (h : sequence xs = sequence ys) : xs = ys := by
  unfold sequence at h
  rw [← List.append_nil (_ ++ tails xs), ← List.append_nil (_ ++ tails ys)] at h
  obtain ⟨hheads, htails⟩ := heads_eq_and_tails_eq hx hy h
  exact (items_inj hx hy hxc hyc hheads htails).1

end Token

/-! ## Sizes that fit

What the sizes in an item are can be seen from the size of its encoding, with one exception: items
that take up no space, records without fields, can be any number in an array. -/

namespace Kind

mutual

/-- Whether the items of the type take up space. -/
def takesSpace : Kind → Bool
  | word => true
  | bytes => true
  | array _ => true
  | tuple kinds => anyTakesSpace kinds

/-- Whether this is so for one of the types. -/
def anyTakesSpace : List Kind → Bool
  | [] => false
  | kind :: kinds => kind.takesSpace || anyTakesSpace kinds

end

mutual

/-- Whether the items of all arrays in the type take up space. -/
def isSolid : Kind → Bool
  | word => true
  | bytes => true
  | array kind => kind.takesSpace && kind.isSolid
  | tuple kinds => allSolid kinds

/-- Whether this is so for all types. -/
def allSolid : List Kind → Bool
  | [] => true
  | kind :: kinds => kind.isSolid && allSolid kinds

end

theorem allSolid_replicate {kind : Kind} (h : kind.isSolid = true) (count : Nat) :
    allSolid (List.replicate count kind) = true := by
  induction count with
  | zero => rfl
  | succ count ih => rw [List.replicate_succ, allSolid, h, ih, Bool.and_self]

end Kind

namespace Token

open Kind

mutual

theorem headSize_pos {kind : Kind} {x : Token} (hspace : kind.takesSpace = true)
    (hx : HasKind kind x) : 0 < x.headSize := by
  match kind, x with
  | .word, .word _ => exact Nat.zero_lt_succ _
  | .bytes, .bytes _ => exact Nat.zero_lt_succ _
  | .array _, .array _ => exact Nat.zero_lt_succ _
  | .tuple kinds, .tuple items =>
      rw [takesSpace] at hspace
      rw [HasKind] at hx
      rw [headSize]
      split
      · exact Nat.zero_lt_succ _
      · exact headsSize_pos hspace hx

theorem headsSize_pos {kinds : List Kind} {xs : List Token} (hspace : anyTakesSpace kinds = true)
    (hx : HaveKinds kinds xs) : 0 < headsSize xs := by
  match kinds, xs with
  | [], [] => exact absurd hspace (by rw [anyTakesSpace]; decide)
  | kind :: kinds, x :: xs =>
      rw [anyTakesSpace, Bool.or_eq_true] at hspace
      rw [HaveKinds] at hx
      rw [headsSize]
      rcases hspace with hitem | hitems
      · have hpos := headSize_pos hitem hx.1
        omega
      · have hpos := headsSize_pos hitems hx.2
        omega

end

theorem sequenceSize_cons (item : Token) (items : List Token) :
    item.bodySize + sequenceSize items ≤ sequenceSize (item :: items) ∧
      item.headSize + sequenceSize items ≤ sequenceSize (item :: items) := by
  rw [sequenceSize]
  cases hdynamic : item.isDynamic with
  | true =>
      have hhead := headSize_of_dynamic hdynamic
      rw [if_pos rfl]
      omega
  | false =>
      have hbody := bodySize_of_static hdynamic
      rw [if_neg Bool.false_ne_true]
      omega

theorem length_le_sequenceSize {kind : Kind} (hspace : kind.takesSpace = true) :
    ∀ {items : List Token}, HaveKinds (List.replicate items.length kind) items →
      items.length ≤ sequenceSize items := by
  intro items
  induction items with
  | nil => intro _; exact Nat.zero_le _
  | cons item items ih =>
      intro h
      rw [List.length_cons, List.replicate_succ, HaveKinds] at h
      have hrest := ih h.2
      have hpos := headSize_pos hspace h.1
      have hroom := (sequenceSize_cons item items).2
      rw [List.length_cons]
      omega

mutual

theorem counted_of_bodySize_lt {kind : Kind} {x : Token} (hsolid : kind.isSolid = true)
    (hx : HasKind kind x) (h : x.bodySize < UInt64.size) : Counted x := by
  match kind, x with
  | .word, .word _ => rw [Counted]; exact trivial
  | .bytes, .bytes content =>
      rw [bodySize] at h
      rw [Counted]
      have hfits := le_slotSize_mul_slotCount content.length
      omega
  | .array kind, .array items =>
      rw [isSolid, Bool.and_eq_true] at hsolid
      rw [HasKind] at hx
      rw [bodySize] at h
      rw [Counted]
      have hlength := length_le_sequenceSize hsolid.1 hx
      exact ⟨by omega, allCounted_of_sequenceSize_lt (allSolid_replicate hsolid.2 _) hx (by omega)⟩
  | .tuple kinds, .tuple items =>
      rw [isSolid] at hsolid
      rw [HasKind] at hx
      rw [bodySize] at h
      rw [Counted]
      exact allCounted_of_sequenceSize_lt hsolid hx h

theorem allCounted_of_sequenceSize_lt {kinds : List Kind} {xs : List Token}
    (hsolid : allSolid kinds = true) (hx : HaveKinds kinds xs)
    (h : sequenceSize xs < UInt64.size) : AllCounted xs := by
  match kinds, xs with
  | [], [] => rw [AllCounted]; exact trivial
  | kind :: kinds, x :: xs =>
      rw [allSolid, Bool.and_eq_true] at hsolid
      rw [HaveKinds] at hx
      rw [AllCounted]
      have hroom := (sequenceSize_cons x xs).1
      exact ⟨counted_of_bodySize_lt hsolid.1 hx.1 (by omega),
        allCounted_of_sequenceSize_lt hsolid.2 hx.2 (by omega)⟩

end

/-! ## Unique decoding

Where no item is without space it is enough that the encodings are short. Otherwise the sizes have to
be asked for as well: an array of `2 ^ 256` records without fields is written like the empty one,
and only a list that no memory holds is so long. -/

theorem bytesOf_sequence_injective {kinds : List Kind} {xs ys : List Token}
    (hx : HaveKinds kinds xs) (hy : HaveKinds kinds ys)
    (hsizes : allSolid kinds = true ∨ AllCounted xs ∧ AllCounted ys)
    (hxs : (bytesOf (sequence xs)).length < UInt64.size)
    (hys : (bytesOf (sequence ys)).length < UInt64.size)
    (h : bytesOf (sequence xs) = bytesOf (sequence ys)) : xs = ys := by
  obtain ⟨hxc, hyc⟩ : AllCounted xs ∧ AllCounted ys := by
    rcases hsizes with hsolid | hcounted
    · rw [length_bytesOf_sequence] at hxs hys
      exact ⟨allCounted_of_sequenceSize_lt hsolid hx hxs,
        allCounted_of_sequenceSize_lt hsolid hy hys⟩
    · exact hcounted
  exact sequence_injective hx hy hxc hyc (bytesOf_injective h)

theorem encodeArguments_injective_of_isSolid {kinds : List Kind} {xs ys : List Token}
    (hsolid : allSolid kinds = true) (hx : HaveKinds kinds xs) (hy : HaveKinds kinds ys)
    (hxs : (encodeArguments (.tuple xs)).length < UInt64.size)
    (hys : (encodeArguments (.tuple ys)).length < UInt64.size)
    (h : encodeArguments (.tuple xs) = encodeArguments (.tuple ys)) : xs = ys :=
  bytesOf_sequence_injective hx hy (.inl hsolid) hxs hys h

theorem encode_injective {kind : Kind} {x y : Token} (hx : HasKind kind x) (hy : HasKind kind y)
    (hsizes : kind.isSolid = true ∨ Counted x ∧ Counted y)
    (hxs : (encode x).length < UInt64.size) (hys : (encode y).length < UInt64.size)
    (h : encode x = encode y) : x = y := by
  have hone : ∀ {token : Token}, HasKind kind token → HaveKinds [kind] [token] := by
    intro token htoken
    rw [HaveKinds, HaveKinds]
    exact ⟨htoken, trivial⟩
  have hsizes : allSolid [kind] = true ∨ AllCounted [x] ∧ AllCounted [y] := by
    simpa only [allSolid, AllCounted, Bool.and_true, and_true] using hsizes
  rw [encode] at hxs hys h
  rw [encode] at h
  have hitems : [x] = [y] := bytesOf_sequence_injective (hone hx) (hone hy) hsizes hxs hys h
  exact (List.cons.inj hitems).1

theorem encodeArguments_of_ne_tuple {token : Token} (h : ∀ items, token ≠ .tuple items) :
    encodeArguments token = encode token := by
  cases token with
  | word slot => rfl
  | bytes content => rfl
  | array items => rfl
  | tuple items => exact absurd rfl (h items)

theorem encodeArguments_injective {kind : Kind} {x y : Token} (hx : HasKind kind x)
    (hy : HasKind kind y) (hsizes : kind.isSolid = true ∨ Counted x ∧ Counted y) :
    (encodeArguments x).length < UInt64.size → (encodeArguments y).length < UInt64.size →
      encodeArguments x = encodeArguments y → x = y := by
  by_cases htuple : ∃ kinds, kind = .tuple kinds
  · obtain ⟨kinds, rfl⟩ := htuple
    match x, y with
    | .tuple xs, .tuple ys =>
        intro hxs hys h
        rw [HasKind] at hx hy
        rw [isSolid, Counted, Counted] at hsizes
        exact congrArg tuple (bytesOf_sequence_injective hx hy hsizes hxs hys h)
  · have hne : ∀ {token : Token}, HasKind kind token → ∀ items, token ≠ .tuple items := by
      rintro _ h items rfl
      cases kind with
      | tuple kinds => exact htuple ⟨kinds, rfl⟩
      | word | bytes | array item => exact h
    rw [encodeArguments_of_ne_tuple (hne hx), encodeArguments_of_ne_tuple (hne hy)]
    exact encode_injective hx hy hsizes

/-- Whoever knows the types can tell what was written, be it a sequence, a single value or the
arguments of a call: tokens of one type are the same if their bytes are. -/
theorem encodings_determine_tokens :
    (∀ (kinds : List Kind) (xs ys : List Token), HaveKinds kinds xs → HaveKinds kinds ys →
      (allSolid kinds = true ∨ AllCounted xs ∧ AllCounted ys) →
      (bytesOf (sequence xs)).length < UInt64.size →
      (bytesOf (sequence ys)).length < UInt64.size →
      bytesOf (sequence xs) = bytesOf (sequence ys) → xs = ys) ∧
    (∀ (kind : Kind) (x y : Token), HasKind kind x → HasKind kind y →
      (kind.isSolid = true ∨ Counted x ∧ Counted y) →
      ((encode x).length < UInt64.size → (encode y).length < UInt64.size →
        encode x = encode y → x = y) ∧
      ((encodeArguments x).length < UInt64.size → (encodeArguments y).length < UInt64.size →
        encodeArguments x = encodeArguments y → x = y)) := by
  constructor
  · intro kinds xs ys hx hy hsizes hxs hys h
    exact bytesOf_sequence_injective hx hy hsizes hxs hys h
  · intro kind x y hx hy hsizes
    exact ⟨encode_injective hx hy hsizes, encodeArguments_injective hx hy hsizes⟩

/-- A record of a word, an array of records without fields, and bytes. -/
def record (count : Nat) (content : Bytes) : Token :=
  .tuple [.number 7, .array (List.replicate count (.tuple [])), .bytes content]

/-- The types of that record. -/
def recordKind : Kind := .tuple [.word, .array (.tuple []), .bytes]

/-- Two and three records without fields are told apart, although they take up no space. -/
theorem encodings_determine_record :
    HasKind recordKind (record 2 [1]) ∧ HasKind recordKind (record 3 [1]) ∧
      Counted (record 2 [1]) ∧ Counted (record 3 [1]) ∧
      (encode (record 2 [1])).length = (encode (record 3 [1])).length ∧
      encode (record 2 [1]) ≠ encode (record 3 [1]) ∧
      encodeArguments (record 2 [1]) ≠ encodeArguments (record 3 [1]) ∧
      bytesOf (sequence [record 2 [1]]) ≠ bytesOf (sequence [record 3 [1]]) := by
  have hne : record 2 [1] ≠ record 3 [1] := by
    intro h
    simp [record] at h
  have hkind : ∀ count, HasKind recordKind (record count [1]) := by
    intro count
    have hrecords : HaveKinds (List.replicate count (.tuple []))
        (List.replicate count (.tuple [])) := by
      induction count with
      | zero => exact trivial
      | succ count ih =>
          rw [List.replicate_succ, List.replicate_succ, HaveKinds]
          exact ⟨trivial, ih⟩
    simpa only [recordKind, record, number, HasKind, HaveKinds, true_and, and_true,
      List.length_replicate] using hrecords
  have hcounted : Counted (record 2 [1]) ∧ Counted (record 3 [1]) := by
    simp only [record, number, Counted, AllCounted, List.replicate, List.length_cons,
      List.length_nil]
    decide
  have hsize : (encode (record 2 [1])).length < UInt64.size ∧
      (encode (record 3 [1])).length < UInt64.size := by
    rw [encode, encode, length_bytesOf_sequence, length_bytesOf_sequence]
    decide
  have hsize' : (encodeArguments (record 2 [1])).length < UInt64.size ∧
      (encodeArguments (record 3 [1])).length < UInt64.size := by
    rw [record, record, length_encodeArguments_tuple, length_encodeArguments_tuple]
    decide
  obtain ⟨hsequence, hsingle⟩ := encodings_determine_tokens
  obtain ⟨hencode, harguments⟩ := hsingle recordKind _ _ (hkind 2) (hkind 3) (.inr hcounted)
  have hsame : (encode (record 2 [1])).length = (encode (record 3 [1])).length := by
    rw [encode, encode, length_bytesOf_sequence, length_bytesOf_sequence]
    decide
  refine ⟨hkind 2, hkind 3, hcounted.1, hcounted.2, hsame,
    fun h => hne (hencode hsize.1 hsize.2 h), fun h => hne (harguments hsize'.1 hsize'.2 h), ?_⟩
  intro h
  have hkinds : ∀ count, HaveKinds [recordKind] [record count [1]] := fun count => ⟨hkind count, trivial⟩
  exact hne (List.cons.inj (hsequence [recordKind] _ _ (hkinds 2) (hkinds 3)
    (.inr ⟨⟨hcounted.1, trivial⟩, hcounted.2, trivial⟩) hsize.1 hsize.2 h)).1

end Token

end DebtChannel.Abi
