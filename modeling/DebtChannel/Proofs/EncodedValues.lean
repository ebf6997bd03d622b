import DebtChannel.Abi.Value
import DebtChannel.Proofs.Results

/-!
# What becomes of a value

The encoder takes a value apart and has one flag to remember where it is: whether a mark stands
directly above. The flag decides how a byte string is written, and nothing else may hang on it. A
flag that got through to a byte string further down would give it an encoding of its own, and with
it another hash, for which nobody would know the reason.

So it is said here without a flag what an encoding is. A path leads to a node of the value, step by
step, and the last step tells whether the node stands below a mark. A node has no encoding for
reasons of its own (`Unfit`), or it has a token that looks like the node (`Depicts`), and this token
stands at the place of the node, which is the path without its steps below marks. Values are as deep
as one likes, but paths are lists: what is known of one step (`eq_dynamic_or_compound`) goes down
the path by induction. Only that the leftmost node is named needs an induction over the value, where
everything to the left of the item that fails has been encoded.
-/

namespace DebtChannel.Abi

/-! ## Paths into values -/

namespace Value

/-- A step into a value: below a mark, or to one of the items. -/
inductive Step where
  | mark
  | item (index : Nat)
deriving DecidableEq

/-- What a step leads to. No step leads into a value that contracts know nothing like. -/
def inside? : Value → Step → Option Value
  | .dynamic value, .mark => some value
  | .newtype value, .item index => [value][index]?
  | .sequence items, .item index => items[index]?
  | .tuple items, .item index => items[index]?
  | _, _ => none

/-- The node at the end of a path. -/
def node? : Value → List Step → Option Value
  | value, [] => some value
  | value, step :: path => (value.inside? step).bind fun inner => inner.node? path

/-- Whether a path ends directly below a mark. Of the empty path `above` tells it. -/
def endsMarked (above : Bool) : List Step → Bool
  | [] => above
  | step :: path => endsMarked (step == .mark) path

/-- The path without its steps below marks. -/
def place : List Step → List Nat
  | [] => []
  | .mark :: path => place path
  | .item index :: path => index :: place path

/-- The first path branches off to the left of the second. -/
inductive LeftOf : List Step → List Step → Prop where
  | here {i j : Nat} {path other : List Step} (hlt : i < j) :
      LeftOf (.item i :: path) (.item j :: other)
  | deeper {step : Step} {path other : List Step} (h : LeftOf path other) :
      LeftOf (step :: path) (step :: other)

/-! ## What has no encoding -/

/-- The node has no encoding, whatever stands around it but for a mark directly above. -/
inductive Unfit (marked : Bool) : Value → Error → Prop where
  | float32 : Unfit marked .float32 (.typeNotRepresentable "f32")
  | float64 : Unfit marked .float64 (.typeNotRepresentable "f64")
  | char (value : Char) : Unfit marked (.char value) (.typeNotRepresentable "char")
  | absent : Unfit marked .absent (.typeNotRepresentable "Option")
  | present (value : Value) : Unfit marked (.present value) (.typeNotRepresentable "Option")
  | unit : Unfit marked .unit (.typeNotRepresentable "()")
  | unitRecord (name : String) : Unfit marked (.unitRecord name) (.typeNotRepresentable name)
  | variant (name : String) (fields : List Value) :
      Unfit marked (.variant name fields) (.typeNotRepresentable name)
  | map (entries : List Value) : Unfit marked (.map entries) (.typeNotRepresentable "map")
  | refusal (reason : String) : Unfit marked (.refusal reason) (.custom reason)
  | tooLong {content : Bytes} (hmarked : marked = false) (hlong : 32 < content.length) :
      Unfit marked (.bytes content) (.fixedBytesTooLong content.length)

/-- The leftmost node without an encoding has none for this cause. -/
def FirstUnfit (above : Bool) (value : Value) (cause : Error) : Prop :=
  ∃ path node, value.node? path = some node ∧ Unfit (endsMarked above path) node cause ∧
    ∀ other node' cause', value.node? other = some node' →
      Unfit (endsMarked above other) node' cause' → other ≠ path → LeftOf path other

/-- What the token of a node looks like. A mark has none of its own. -/
inductive Depicts (marked : Bool) : Value → Token → Prop where
  | bool {value : Bool} {slot : Slot}
      (hreads : (Uint256.ofBytes slot.toList).toNat = value.toNat) :
      Depicts marked (.bool value) (.word slot)
  | uint {width : Width} {value : BitVec width.bits} {slot : Slot}
      (hreads : (Uint256.ofBytes slot.toList).toInt = value.toNat) :
      Depicts marked (.uint width value) (.word slot)
  | int {width : Width} {value : BitVec width.bits} {slot : Slot}
      (hreads : (Uint256.ofBytes slot.toList).toInt = value.toInt) :
      Depicts marked (.int width value) (.word slot)
  | text {value : String} : Depicts marked (.text value) (.bytes (Bytes.ofString value))
  | fixedBytes {content : Bytes} {slot : Slot} (hmarked : marked = false)
      (hleft : slot.toList = content ++ Bytes.zeros (32 - content.length)) :
      Depicts marked (.bytes content) (.word slot)
  | bytes {content : Bytes} (hmarked : marked = true) :
      Depicts marked (.bytes content) (.bytes content)
  | dynamic {value : Value} {token : Token} : Depicts marked (.dynamic value) token
  | newtype {value : Value} {token : Token} : Depicts marked (.newtype value) (.tuple [token])
  | sequence {items : List Value} {written : List Token} (hlength : written.length = items.length) :
      Depicts marked (.sequence items) (.array written)
  | tuple {items : List Value} {written : List Token} (hlength : written.length = items.length) :
      Depicts marked (.tuple items) (.tuple written)

end Value

/-- The token at a place. -/
def Token.node? : Token → List Nat → Option Token
  | token, [] => some token
  | .array items, index :: place => items[index]?.bind fun item => item.node? place
  | .tuple items, index :: place => items[index]?.bind fun item => item.node? place
  | _, _ => none

namespace Value

variable {above : Bool} {value : Value} {cause : Error}

theorem tokens_ok : ∀ {items : List Value} {written : List Token}, tokens items = .ok written →
    written.length = items.length ∧ ∀ (index : Nat) (item : Value), items[index]? = some item →
      ∃ token, written[index]? = some token ∧ item.tokenBelow false = .ok token := by
  intro items
  induction items with
  | nil =>
      intro written h
      obtain rfl := Except.ok.inj h
      exact ⟨rfl, fun index item hitem => by cases hitem⟩
  | cons first items ih =>
      intro written h
      rw [tokens] at h
      split at h
      · cases h
      next token htoken =>
      split at h
      · cases h
      next rest hrest =>
      obtain rfl := Except.ok.inj h
      obtain ⟨hlength, hitems⟩ := ih hrest
      refine ⟨congrArg (· + 1) hlength, fun index item hitem => ?_⟩
      cases index with
      | zero =>
          obtain rfl := Option.some.inj hitem
          exact ⟨token, rfl, htoken⟩
      | succ index => exact hitems index item hitem

theorem tokens_error : ∀ {items : List Value}, tokens items = .error cause →
    ∃ (index : Nat) (item : Value), items[index]? = some item ∧
      item.tokenBelow false = .error cause ∧
      ∀ (earlier : Nat) (other : Value), earlier < index → items[earlier]? = some other →
        ∃ token, other.tokenBelow false = .ok token := by
  intro items
  induction items with
  | nil => intro h; cases h
  | cons first items ih =>
      intro h
      rw [tokens] at h
      split at h
      · next hfirst =>
          obtain rfl := Except.error.inj h
          exact ⟨0, first, rfl, hfirst, fun earlier other hlt => absurd hlt (Nat.not_lt_zero _)⟩
      next token htoken =>
      split at h
      · next hrest =>
          obtain rfl := Except.error.inj h
          obtain ⟨index, item, hitem, herror, hearlier⟩ := ih hrest
          refine ⟨index + 1, item, hitem, herror, fun earlier other hlt hother => ?_⟩
          cases earlier with
          | zero =>
              obtain rfl := Option.some.inj hother
              exact ⟨token, htoken⟩
          | succ earlier => exact hearlier earlier other (Nat.lt_of_succ_lt_succ hlt) hother
      · cases h

/-- The values with items, and how the tokens of the items are put together. -/
inductive Compound : Value → List Value → (List Token → Token) → Prop where
  | newtype (value : Value) : Compound (.newtype value) [value] .tuple
  | sequence (items : List Value) : Compound (.sequence items) items .array
  | tuple (items : List Value) : Compound (.tuple items) items .tuple

namespace Compound

variable {items : List Value} {wrap : List Token → Token}

theorem inside? (h : Compound value items wrap) (index : Nat) :
    value.inside? (.item index) = items[index]? := by
  cases h <;> rfl

theorem inside?_mark (h : Compound value items wrap) : value.inside? .mark = none := by
  cases h <;> rfl

theorem tokenBelow (h : Compound value items wrap) (above : Bool) :
    value.tokenBelow above = (tokens items).map wrap := by
  cases h with
  | newtype inner =>
      rw [Value.tokenBelow, tokens]
      cases inner.tokenBelow false <;> rfl
  | sequence items => rw [Value.tokenBelow]
  | tuple items => rw [Value.tokenBelow]

theorem node? (h : Compound value items wrap) (written : List Token) (index : Nat)
    (place : List Nat) :
    (wrap written).node? (index :: place) = written[index]?.bind fun item => item.node? place := by
  cases h <;> rfl

theorem sizeOf_lt (h : Compound value items wrap) {item : Value} (hmem : item ∈ items) :
    sizeOf item < sizeOf value := by
  cases h with
  | newtype inner =>
      obtain rfl := List.mem_singleton.mp hmem
      rw [newtype.sizeOf_spec]
      omega
  | sequence items =>
      have hitem := List.sizeOf_lt_of_mem hmem
      rw [sequence.sizeOf_spec]
      omega
  | tuple items =>
      have hitem := List.sizeOf_lt_of_mem hmem
      rw [tuple.sizeOf_spec]
      omega

end Compound

/-- A step leads below a mark or to an item. -/
theorem eq_dynamic_or_compound {step : Step} {inner : Value} (h : value.inside? step = some inner) :
    (step = .mark ∧ value = .dynamic inner) ∨
    ∃ index items wrap, step = .item index ∧ Compound value items wrap ∧
      items[index]? = some inner := by
  cases step with
  | mark =>
      cases value with
      | dynamic value => exact .inl ⟨rfl, congrArg dynamic (Option.some.inj h)⟩
      | _ => cases h
  | item index =>
      cases value with
      | newtype value => exact .inr ⟨index, [value], _, rfl, .newtype value, h⟩
      | sequence items => exact .inr ⟨index, items, _, rfl, .sequence items, h⟩
      | tuple items => exact .inr ⟨index, items, _, rfl, .tuple items, h⟩
      | _ => cases h

/-- A value fails by itself, below its mark, or in one of its items. -/
theorem unfit_or_inside (h : value.tokenBelow above = .error cause) :
    Unfit above value cause ∨
    (∃ inner, value = .dynamic inner ∧ inner.tokenBelow true = .error cause) ∨
    ∃ items wrap, Compound value items wrap ∧ tokens items = .error cause := by
  have hcompound : ∀ {items wrap}, Compound value items wrap →
      ∃ items wrap, Compound value items wrap ∧ tokens items = .error cause := by
    intro items wrap hvalue
    rw [hvalue.tokenBelow] at h
    exact ⟨items, wrap, hvalue, eq_error_of_map_eq_error h⟩
  cases value with
  | newtype value => exact .inr (.inr (hcompound (.newtype value)))
  | sequence items => exact .inr (.inr (hcompound (.sequence items)))
  | tuple items => exact .inr (.inr (hcompound (.tuple items)))
  | dynamic value =>
      rw [tokenBelow] at h
      exact .inr (.inl ⟨value, rfl, h⟩)
  | bytes content =>
      rw [tokenBelow, Token.ofBytes] at h
      split at h
      · cases h
      next hfixed =>
      split at h
      · cases h
      next hlong =>
      obtain rfl := Except.error.inj h
      exact .inl (.tooLong (Bool.eq_false_iff.mpr hfixed) (Nat.lt_of_not_le hlong))
  | bool | uint | int | text => rw [tokenBelow] at h; cases h
  | float32 | float64 | char | absent | present | unit | unitRecord | variant | map | refusal =>
      rw [tokenBelow] at h
      obtain rfl := Except.error.inj h
      exact .inl (by constructor)

theorem Unfit.tokenBelow (h : Unfit above value cause) :
    value.tokenBelow above = .error cause := by
  cases h with
  | tooLong hmarked hlong =>
      rw [Value.tokenBelow, Token.ofBytes, hmarked, if_neg Bool.false_ne_true,
        dif_neg (Nat.not_le_of_lt hlong)]
  | _ => rw [Value.tokenBelow]

/-- No step leads into a node without an encoding. -/
theorem Unfit.inside? (h : Unfit above value cause) (step : Step) : value.inside? step = none := by
  cases h <;> cases step <;> rfl

/-! ## The leftmost node without an encoding -/

theorem node?_cons {step : Step} {inner : Value} (h : value.inside? step = some inner)
    (path : List Step) : value.node? (step :: path) = inner.node? path := by
  rw [node?, h, Option.bind_some]

theorem LeftOf.asymm {path other : List Step} (h : LeftOf path other) : ¬ LeftOf other path := by
  induction h with
  | here hlt =>
      intro h
      cases h with
      | here hlt' => exact Nat.lt_asymm hlt hlt'
      | deeper _ => exact Nat.lt_irrefl _ hlt
  | deeper _ ih =>
      intro h
      cases h with
      | here hlt => exact Nat.lt_irrefl _ hlt
      | deeper h => exact ih h

/-- What is encoded has an encoding at every node, whose token stands at the place of the node. -/
theorem exists_token_of_node? :
    ∀ {path : List Step} {above : Bool} {value node : Value} {token : Token},
      value.tokenBelow above = .ok token → value.node? path = some node →
      ∃ found, token.node? (place path) = some found ∧
        node.tokenBelow (endsMarked above path) = .ok found := by
  intro path
  induction path with
  | nil =>
      intro above value node token h hnode
      obtain rfl := Option.some.inj hnode
      exact ⟨token, rfl, h⟩
  | cons step path ih =>
      intro above value node token h hnode
      obtain ⟨inner, hinner, hrest⟩ := Option.bind_eq_some_iff.mp hnode
      rcases eq_dynamic_or_compound hinner with
        ⟨rfl, rfl⟩ | ⟨index, items, wrap, rfl, hvalue, hitem⟩
      · -- A step below a mark changes the flag, but neither the token nor the place.
        rw [tokenBelow] at h
        exact ih h hrest
      · rw [hvalue.tokenBelow] at h
        obtain ⟨written, hwritten, rfl⟩ := exists_ok_of_map_eq_ok h
        obtain ⟨token, htoken, hok⟩ := (tokens_ok hwritten).2 index inner hitem
        obtain ⟨found, hfound, hnodeOk⟩ := ih hok hrest
        refine ⟨found, ?_, hnodeOk⟩
        rw [place, hvalue.node?, htoken, Option.bind_some, hfound]

theorem not_unfit_of_ok {token : Token} (h : value.tokenBelow above = .ok token)
    {path : List Step} {node : Value} (hnode : value.node? path = some node) :
    ¬ Unfit (endsMarked above path) node cause := by
  intro hunfit
  obtain ⟨found, -, hok⟩ := exists_token_of_node? h hnode
  rw [hunfit.tokenBelow] at hok
  cases hok

/-- The leftmost node of what a step leads to is that of the value, if what stands to the left of it
is encoded. -/
theorem FirstUnfit.of_inside {step : Step} {inner : Value}
    (hinner : value.inside? step = some inner) (h : FirstUnfit (step == .mark) inner cause)
    (hleft : ∀ (other : Step) (found : Value), value.inside? other = some found → other ≠ step →
      (∃ token, found.tokenBelow (other == .mark) = .ok token) ∨
        ∀ path rest, LeftOf (step :: path) (other :: rest)) :
    FirstUnfit above value cause := by
  obtain ⟨path, node, hnode, hunfit, hfirst⟩ := h
  refine ⟨step :: path, node, by rw [node?_cons hinner, hnode], hunfit, ?_⟩
  intro other node' cause' hnode' hunfit' hne
  cases other with
  | nil =>
      obtain rfl := Option.some.inj hnode'
      rw [Unfit.inside? hunfit'] at hinner
      cases hinner
  | cons other rest =>
      obtain ⟨found, hfound, hnode'⟩ := Option.bind_eq_some_iff.mp hnode'
      by_cases hsame : other = step
      · subst hsame
        obtain rfl := Option.some.inj (hinner.symm.trans hfound)
        exact .deeper (hfirst rest node' cause' hnode' hunfit' fun h => hne (by rw [h]))
      · rcases hleft other found hfound hsame with ⟨token, hok⟩ | hleft
        · exact absurd hunfit' (not_unfit_of_ok hok hnode')
        · exact hleft path rest

theorem firstUnfit_of_error {above : Bool} {value : Value} {cause : Error}
    (h : value.tokenBelow above = .error cause) : FirstUnfit above value cause := by
  rcases unfit_or_inside h with hunfit | ⟨inner, rfl, herror⟩ | ⟨items, wrap, hvalue, herror⟩
  · refine ⟨[], value, rfl, hunfit, fun other node' cause' hnode' _ hne => ?_⟩
    cases other with
    | nil => exact absurd rfl hne
    | cons step rest =>
        rw [node?, hunfit.inside?] at hnode'
        cases hnode'
  · have hinner : (dynamic inner).inside? .mark = some inner := rfl
    refine .of_inside hinner (firstUnfit_of_error herror) ?_
    intro other found hfound hne
    cases other with
    | mark => exact absurd rfl hne
    | item index => cases hfound
  · obtain ⟨index, item, hitem, herror, hearlier⟩ := tokens_error herror
    have hsize := hvalue.sizeOf_lt (List.mem_of_getElem? hitem)
    have hinner : value.inside? (.item index) = some item := (hvalue.inside? index).trans hitem
    refine .of_inside hinner (firstUnfit_of_error herror) ?_
    intro other found hfound hne
    cases other with
    | mark => rw [hvalue.inside?_mark] at hfound; cases hfound
    | item j =>
        rw [hvalue.inside?] at hfound
        -- Items further right come later, and those further left have been encoded.
        rcases Nat.lt_trichotomy index j with hlt | rfl | hlt
        · exact .inr fun path rest => .here hlt
        · exact absurd rfl hne
        · exact .inl (hearlier j found hlt hfound)
termination_by sizeOf value

theorem Unfit.unique {other : Error} (h : Unfit above value cause)
    (hother : Unfit above value other) : cause = other :=
  Except.error.inj (h.tokenBelow.symm.trans hother.tokenBelow)

theorem FirstUnfit.unique {other : Error} (h : FirstUnfit above value cause)
    (hother : FirstUnfit above value other) : cause = other := by
  obtain ⟨path, node, hnode, hunfit, hfirst⟩ := h
  obtain ⟨path', node', hnode', hunfit', hfirst'⟩ := hother
  by_cases hsame : path' = path
  · subst hsame
    obtain rfl := Option.some.inj (hnode.symm.trans hnode')
    exact hunfit.unique hunfit'
  · exact absurd (hfirst' _ _ _ hnode hunfit (Ne.symm hsame))
      (hfirst _ _ _ hnode' hunfit' hsame).asymm

theorem tokenBelow_eq_error_iff :
    value.tokenBelow above = .error cause ↔ FirstUnfit above value cause := by
  refine ⟨firstUnfit_of_error, fun h => ?_⟩
  cases hvalue : value.tokenBelow above with
  | ok token =>
      obtain ⟨path, node, hnode, hunfit, -⟩ := h
      exact absurd hunfit (not_unfit_of_ok hvalue hnode)
  | error other => rw [(firstUnfit_of_error hvalue).unique h]

/-! ## What tokens look like -/

theorem toInt_setWidth (width : Width) (value : BitVec width.bits) :
    (value.setWidth 256).toInt = value.toNat := by
  have hlt : value.toNat < 2 ^ 128 := by
    refine Nat.lt_of_lt_of_le value.isLt (Nat.pow_le_pow_right (by decide) ?_)
    cases width <;> decide
  have hwide := width.toNat_setWidth value
  rw [BitVec.toInt_eq_toNat_of_lt (by omega), hwide]

theorem toInt_signExtend (width : Width) (value : BitVec width.bits) :
    (value.signExtend 256).toInt = value.toInt := by
  refine BitVec.toInt_signExtend_of_le ?_
  cases width <;> decide

theorem depicts_of_ok {token : Token} (h : value.tokenBelow above = .ok token) :
    Depicts above value token := by
  cases value with
  | bool value =>
      rw [tokenBelow] at h
      obtain rfl := Except.ok.inj h
      refine .bool ?_
      cases value <;> decide
  | uint width value =>
      rw [tokenBelow] at h
      obtain rfl := Except.ok.inj h
      exact .uint (by rw [Uint256.ofBytes_toBytes, toInt_setWidth])
  | int width value =>
      rw [tokenBelow] at h
      obtain rfl := Except.ok.inj h
      exact .int (by rw [Uint256.ofBytes_toBytes, toInt_signExtend])
  | text value =>
      rw [tokenBelow] at h
      obtain rfl := Except.ok.inj h
      exact .text
  | bytes content =>
      rw [tokenBelow, Token.ofBytes] at h
      split at h
      · next hmarked =>
          obtain rfl := Except.ok.inj h
          exact .bytes hmarked
      next hfixed =>
      split at h
      · obtain rfl := Except.ok.inj h
        exact .fixedBytes (Bool.eq_false_iff.mpr hfixed) rfl
      · cases h
  | dynamic value => exact .dynamic
  | newtype value =>
      rw [tokenBelow] at h
      obtain ⟨found, -, rfl⟩ := exists_ok_of_map_eq_ok h
      exact .newtype
  | sequence items =>
      rw [tokenBelow] at h
      obtain ⟨written, hwritten, rfl⟩ := exists_ok_of_map_eq_ok h
      exact .sequence (tokens_ok hwritten).1
  | tuple items =>
      rw [tokenBelow] at h
      obtain ⟨written, hwritten, rfl⟩ := exists_ok_of_map_eq_ok h
      exact .tuple (tokens_ok hwritten).1
  | _ => rw [tokenBelow] at h; cases h

/-- A token with items is that of a value with items, perhaps below marks. -/
theorem dynamic_or_compound_of_node? {token found : Token} {index : Nat} {rest : List Nat}
    (h : value.tokenBelow above = .ok token) (hfound : token.node? (index :: rest) = some found) :
    (∃ inner, value = .dynamic inner ∧ inner.tokenBelow true = .ok token) ∨
    ∃ items wrap written, Compound value items wrap ∧ tokens items = .ok written ∧
      token = wrap written := by
  have hcompound : ∀ {items wrap}, Compound value items wrap →
      ∃ items wrap written, Compound value items wrap ∧ tokens items = .ok written ∧
        token = wrap written := by
    intro items wrap hvalue
    rw [hvalue.tokenBelow] at h
    obtain ⟨written, hwritten, rfl⟩ := exists_ok_of_map_eq_ok h
    exact ⟨items, wrap, written, hvalue, hwritten, rfl⟩
  cases depicts_of_ok h with
  | dynamic =>
      rw [tokenBelow] at h
      exact .inl ⟨_, rfl, h⟩
  | newtype => exact .inr (hcompound (.newtype _))
  | sequence _ => exact .inr (hcompound (.sequence _))
  | tuple _ => exact .inr (hcompound (.tuple _))
  | bool | uint | int | text | fixedBytes | bytes => cases hfound

theorem exists_node_of_token {above : Bool} {value : Value} {token found : Token} {path : List Nat}
    (h : value.tokenBelow above = .ok token) (hfound : token.node? path = some found) :
    ∃ steps node, value.node? steps = some node ∧ place steps = path := by
  cases path with
  | nil => exact ⟨[], value, rfl, rfl⟩
  | cons index rest =>
      rcases dynamic_or_compound_of_node? h hfound with
        ⟨inner, rfl, hinner⟩ | ⟨items, wrap, written, hvalue, hwritten, rfl⟩
      · obtain ⟨steps, node, hnode, hplace⟩ := exists_node_of_token hinner hfound
        exact ⟨.mark :: steps, node, hnode, hplace⟩
      · rw [hvalue.node?] at hfound
        obtain ⟨token, htoken, hfound⟩ := Option.bind_eq_some_iff.mp hfound
        obtain ⟨hlength, hitems⟩ := tokens_ok hwritten
        obtain ⟨hlt, -⟩ := List.getElem?_eq_some_iff.mp htoken
        obtain ⟨item, hitem⟩ : ∃ item, items[index]? = some item :=
          ⟨items[index], List.getElem?_eq_getElem (by omega)⟩
        obtain ⟨token', htoken', hok⟩ := hitems index item hitem
        obtain rfl := Option.some.inj (htoken.symm.trans htoken')
        have hsize := hvalue.sizeOf_lt (List.mem_of_getElem? hitem)
        obtain ⟨steps, node, hnode, hplace⟩ := exists_node_of_token hok hfound
        have hinner : value.inside? (.item index) = some item :=
          (hvalue.inside? index).trans hitem
        exact ⟨.item index :: steps, node, by rw [node?_cons hinner, hnode],
          congrArg (index :: ·) hplace⟩
termination_by sizeOf value

/-! ## Every value -/

/-- A value has no encoding exactly if one of its nodes has none, where a byte string that is too
long for a slot counts unless it stands directly below a mark, and it is the leftmost of these nodes
that is named. Otherwise the token of each node stands at the place of the node and looks like it,
numbers of any width read back from their slots, and nothing else stands in the token. A mark above
anything but a byte string changes nothing. -/
theorem encoding_follows_value (value : Value) :
    ((∃ cause, value.toToken = .error cause) ↔
      ∃ path node cause, value.node? path = some node ∧ Unfit (endsMarked false path) node cause) ∧
    (∀ cause, value.toToken = .error cause ↔ FirstUnfit false value cause) ∧
    (∀ token, value.toToken = .ok token →
      (∀ path node, value.node? path = some node →
        ∃ found, token.node? (place path) = some found ∧
          Depicts (endsMarked false path) node found) ∧
      ∀ path found, token.node? path = some found →
        ∃ steps node, value.node? steps = some node ∧ place steps = path) ∧
    ((∀ content, value ≠ .bytes content) → (Value.dynamic value).toToken = value.toToken) := by
  refine ⟨⟨?_, ?_⟩, fun cause => tokenBelow_eq_error_iff, fun token h => ⟨?_, ?_⟩, fun h => ?_⟩
  · rintro ⟨cause, herror⟩
    obtain ⟨path, node, hnode, hunfit, -⟩ := firstUnfit_of_error herror
    exact ⟨path, node, cause, hnode, hunfit⟩
  · rintro ⟨path, node, cause, hnode, hunfit⟩
    cases hvalue : value.toToken with
    | ok token => exact absurd hunfit (not_unfit_of_ok hvalue hnode)
    | error other => exact ⟨other, rfl⟩
  · intro path node hnode
    obtain ⟨found, hfound, hok⟩ := exists_token_of_node? h hnode
    exact ⟨found, hfound, depicts_of_ok hok⟩
  · intro path found hfound
    exact exists_node_of_token h hfound
  · rw [toToken, toToken, tokenBelow]
    cases value with
    | bytes content => exact absurd rfl (h content)
    | _ => rw [tokenBelow, tokenBelow]

/-- A negative number of one byte, bytes below two marks, a record of one field, and a list. -/
def nestedMarks : Value :=
  .tuple [.int .w8 (.ofInt _ (-2)), .dynamic (.dynamic (.bytes (Bytes.zeros 40))),
    .newtype (.bytes [1]), .sequence [.uint .w64 7]]

/-- The two marks count as one, and take up no level. -/
theorem encoding_follows_nestedMarks :
    ∃ token, nestedMarks.toToken = .ok token ∧
      (∃ slot, token.node? [0] = some (.word slot) ∧
        (Uint256.ofBytes slot.toList).toInt = -2) ∧
      token.node? [1] = some (.bytes (Bytes.zeros 40)) ∧
      (∃ slot, token.node? [2, 0] = some (.word slot)) ∧
      (Value.dynamic (.dynamic (.bytes (Bytes.zeros 40)))).toToken
        = (Value.dynamic (.bytes (Bytes.zeros 40))).toToken := by
  obtain ⟨token, hok⟩ : ∃ token, nestedMarks.toToken = .ok token := ⟨_, rfl⟩
  obtain ⟨-, -, hnodes, -⟩ := encoding_follows_value nestedMarks
  obtain ⟨hnodes, -⟩ := hnodes token hok
  refine ⟨token, hok, ?_, ?_, ?_, (encoding_follows_value _).2.2.2 nofun⟩
  · obtain ⟨found, hfound, hdepicts⟩ := hnodes [.item 0] _ rfl
    cases hdepicts with
    | int hreads => exact ⟨_, hfound, hreads.trans (by decide)⟩
  · obtain ⟨found, hfound, hdepicts⟩ := hnodes [.item 1, .mark, .mark] _ rfl
    cases hdepicts with
    | fixedBytes hmarked => exact absurd hmarked (by decide)
    | bytes => exact hfound
  · obtain ⟨found, hfound, hdepicts⟩ := hnodes [.item 2, .item 0] _ rfl
    cases hdepicts with
    | fixedBytes => exact ⟨_, hfound⟩
    | bytes hmarked => exact absurd hmarked (by decide)

end Value

end DebtChannel.Abi
