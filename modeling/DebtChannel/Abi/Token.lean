import DebtChannel.Uint256

/-!
# The encoding that contracts read

What a contract takes as arguments is written in slots of 32 bytes. A static item stands where it
belongs; of a dynamic one only the offset stands there, and the item itself follows behind, in the
tail. Offsets count bytes from the start of the sequence that the item belongs to, at every level
of nesting anew.

The writer never looks back: the size of every part is known before it is written, from
`headSize`, `bodySize` and `sequenceSize`, and offsets are sums of these sizes.
-/

namespace DebtChannel.Abi

/-- The unit of the encoding. -/
abbrev Slot := FixedBytes 32

/-- The bytes of a slot. -/
def slotSize : Nat := 32

/-- A value as the encoding sees it. -/
inductive Token where
  /-- One slot: a number, a flag, an address or bytes of fixed size. -/
  | word (slot : Slot)
  /-- Bytes or text of any length. -/
  | bytes (content : Bytes)
  /-- Any number of items. -/
  | array (items : List Token)
  /-- A fixed number of items, those of a record. -/
  | tuple (items : List Token)

/-- The slot of a size or an offset. -/
def sizeSlot (size : Nat) : Slot := FixedBytes.ofNat 32 size

/-- How many slots hold `size` bytes. -/
def slotCount (size : Nat) : Nat := (size + (slotSize - 1)) / slotSize

/-- The first `count` slots of the bytes; zeros fill up the last one. -/
def slots : (count : Nat) → Bytes → List Slot
  | 0, _ => []
  | count + 1, content =>
      ⟨Bytes.padRight 32 (content.take 32), Bytes.length_padRight (List.length_take_le 32 content)⟩
        :: slots count (content.drop 32)

namespace Token

mutual

/-- Whether the size of the item depends on its content. -/
def isDynamic : Token → Bool
  | word _ => false
  | bytes _ => true
  | array _ => true
  | tuple items => anyDynamic items

/-- Whether any of the items is dynamic. -/
def anyDynamic : List Token → Bool
  | [] => false
  | item :: items => item.isDynamic || anyDynamic items

end

mutual

/-- The bytes that the item takes in the head of its sequence. -/
def headSize : Token → Nat
  | word _ => slotSize
  | bytes _ => slotSize
  | array _ => slotSize
  | tuple items => if anyDynamic items then slotSize else headsSize items

/-- The bytes of the head of a sequence. -/
def headsSize : List Token → Nat
  | [] => 0
  | item :: items => item.headSize + headsSize items

end

mutual

/-- The bytes of the item itself, wherever it is written. -/
def bodySize : Token → Nat
  | word _ => slotSize
  | bytes content => slotSize + slotSize * slotCount content.length
  | array items => slotSize + sequenceSize items
  | tuple items => sequenceSize items

/-- The bytes of a sequence, head and tail. -/
def sequenceSize : List Token → Nat
  | [] => 0
  | item :: items =>
      (if item.isDynamic then slotSize + item.bodySize else item.headSize) + sequenceSize items

end

mutual

/-- The item itself. -/
def body : Token → List Slot
  | word slot => [slot]
  | bytes content => sizeSlot content.length :: slots (slotCount content.length) content
  | array items => sizeSlot items.length :: (heads (headsSize items) items ++ tails items)
  | tuple items => heads (headsSize items) items ++ tails items

/-- The head of a sequence, where the tail of its first dynamic item begins at byte `offset`. -/
def heads (offset : Nat) : List Token → List Slot
  | [] => []
  | item :: items =>
      if item.isDynamic then sizeSlot offset :: heads (offset + item.bodySize) items
      else item.body ++ heads offset items

/-- The tail of a sequence. -/
def tails : List Token → List Slot
  | [] => []
  | item :: items => if item.isDynamic then item.body ++ tails items else tails items

end

/-- A sequence of items, head and tail. -/
def sequence (items : List Token) : List Slot := heads (headsSize items) items ++ tails items

/-- The bytes of slots. -/
def bytesOf (slots : List Slot) : Bytes := slots.flatMap FixedBytes.toList

/-- The encoding of one value. -/
def encode (token : Token) : Bytes := bytesOf (sequence [token])

/-- The encoding of the arguments of a call. The items of a record are the arguments; any other
value is the only one. -/
def encodeArguments : Token → Bytes
  | tuple items => bytesOf (sequence items)
  | token => token.encode

end Token

/-- The token of a number. -/
def Token.number (value : Nat) : Token := .word (sizeSlot value)

/-- The token of a flag. -/
def Token.flag (value : Bool) : Token := .number value.toNat

end DebtChannel.Abi
