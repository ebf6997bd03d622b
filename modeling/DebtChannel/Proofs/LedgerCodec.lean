import DebtChannel.Proofs.WireMessages
import DebtChannel.Proofs.ZeroFree

/-!
# Ledgers read back

Writing a ledger lists its maps in the order of their keys, and reading puts the entries into maps
one by one, leaves out zeros and refuses a key that is there already. A map lists no key twice, so
nothing is refused; what is put in is then the map that was listed. Only zeros would be lost, and a
ledger without zeros has none: that is the one condition under which a ledger reads back, apart from
the length that every message is limited to.
-/

namespace DebtChannel

open Wire (ContentError DecodeError)

/-! ## Maps listed and put together again -/

section Listed

variable {κ β : Type} [Ord κ] [Std.TransOrd κ] [Std.LawfulEqOrd κ]

theorem foldl_insert_toList (entries : Std.ExtTreeMap κ β) :
    entries.toList.foldl (fun found entry => found.insert entry.1 entry.2) ∅ = entries := by
  refine Std.ExtTreeMap.ext_getElem? fun key => ?_
  have hwalk := foldl_toList (fun (found : Std.ExtTreeMap κ β) key => found[key]?)
    (fun found entry => found.insert entry.1 entry.2) (fun _ value => some value)
    (fun found key value => Std.ExtTreeMap.getElem?_insert_self)
    (fun found entry key hne => by
      rw [Std.ExtTreeMap.getElem?_insert, if_neg]
      rwa [Std.LawfulEqOrd.compare_eq_iff_eq]) entries ∅ key
  rw [hwalk, Std.ExtTreeMap.getElem?_empty]
  cases entries[key]? with
  | none => rfl
  | some value => rfl

theorem notMem_insert {entries : Std.ExtTreeMap κ β} {key other : κ} {value : β}
    (hne : key ≠ other) (hnot : other ∉ entries) : other ∉ entries.insert key value := by
  rw [Std.ExtTreeMap.mem_insert, Std.LawfulEqOrd.compare_eq_iff_eq, not_or]
  exact ⟨hne, hnot⟩

end Listed

/-! ## Amounts -/

namespace Amounts

/-- Entries that are new and not zero are put in one by one. -/
theorem addMessages_map : ∀ {entries : List (AssetCode × Uint256)} {amounts : Amounts},
    (entries.map Prod.fst).Nodup → (∀ entry ∈ entries, entry.1 ∉ amounts ∧ entry.2 ≠ 0) →
      amounts.addMessages (entries.map fun entry => ⟨entry.1, entry.2.toBytes.toList⟩)
        = .ok (entries.foldl (fun found entry => Std.ExtTreeMap.insert found entry.1 entry.2) amounts) := by
  intro entries
  induction entries with
  | nil => intro amounts _ _; rfl
  | cons entry entries ih =>
      intro amounts hnodup hnew
      rw [List.map_cons, List.nodup_cons] at hnodup
      obtain ⟨hnot, hne⟩ := hnew entry List.mem_cons_self
      rw [List.map_cons, addMessages, Wire.uint256_toBytes]
      simp only [bind, Except.bind, if_neg hne, if_neg hnot]
      rw [List.foldl_cons]
      -- What is left is new to the larger map too, because no key comes twice.
      refine ih hnodup.2 fun other hother => ?_
      obtain ⟨hother', hne'⟩ := hnew other (List.mem_cons_of_mem _ hother)
      refine ⟨notMem_insert (fun hsame => hnodup.1 ?_) hother', hne'⟩
      exact List.mem_map.mpr ⟨other, hother, hsame.symm⟩

theorem ZeroFree.ofMessages_toMessages {amounts : Amounts} (h : amounts.ZeroFree) :
    ofMessages amounts.toMessages = .ok amounts := by
  have hadded : addMessages ∅ amounts.toMessages
      = .ok (amounts.toList.foldl (fun found entry => found.insert entry.1 entry.2) ∅) := by
    refine addMessages_map (nodup_map_fst_toList amounts) fun entry hentry => ?_
    exact ⟨Std.ExtTreeMap.not_mem_empty,
      h entry.1 entry.2 (Std.ExtTreeMap.mem_toList_iff_getElem?_eq_some.mp hentry)⟩
  rw [ofMessages, hadded, foldl_insert_toList]

end Amounts

/-! ## Ledgers -/

namespace Ledger

/-- Pairs that are new and without zeros are put in one by one. -/
theorem addMessages_map : ∀ {entries : List (Pair × Balances)} {ledger : Ledger},
    (entries.map Prod.fst).Nodup →
      (∀ entry ∈ entries, entry.1 ∉ ledger.pairs ∧
        entry.2.pending.ZeroFree ∧ entry.2.executed.ZeroFree) →
      ledger.addMessages (entries.map fun entry =>
          ⟨entry.1.debtor, entry.1.creditor, entry.2.pending.toMessages, entry.2.executed.toMessages⟩)
        = .ok ⟨entries.foldl (fun found entry => found.insert entry.1 entry.2) ledger.pairs⟩ := by
  intro entries
  induction entries with
  | nil => intro ledger _ _; rfl
  | cons entry entries ih =>
      intro ledger hnodup hnew
      rw [List.map_cons, List.nodup_cons] at hnodup
      obtain ⟨hnot, hpending, hexecuted⟩ := hnew entry List.mem_cons_self
      rw [List.map_cons, addMessages]
      simp only [hpending.ofMessages_toMessages, hexecuted.ofMessages_toMessages, bind, Except.bind,
        if_neg hnot]
      rw [List.foldl_cons]
      refine ih hnodup.2 fun other hother => ?_
      obtain ⟨hother', hzero⟩ := hnew other (List.mem_cons_of_mem _ hother)
      refine ⟨notMem_insert (fun hsame => hnodup.1 ?_) hother', hzero⟩
      exact List.mem_map.mpr ⟨other, hother, hsame.symm⟩

theorem ZeroFree.ofMessage_toMessage {ledger : Ledger} (h : ledger.ZeroFree) :
    ofMessage ledger.toMessage = .ok ledger := by
  have hadded : empty.addMessages ledger.toMessage.liabilities
      = .ok ⟨ledger.pairs.toList.foldl (fun found entry => found.insert entry.1 entry.2) ∅⟩ := by
    refine addMessages_map (nodup_map_fst_toList ledger.pairs) fun entry hentry => ?_
    exact ⟨Std.ExtTreeMap.not_mem_empty,
      h entry.1 entry.2 (Std.ExtTreeMap.mem_toList_iff_getElem?_eq_some.mp hentry)⟩
  rw [ofMessage, hadded, foldl_insert_toList]

/-- A ledger without zeros reads back from its bytes. -/
theorem ZeroFree.decode_encode {ledger : Ledger} (h : ledger.ZeroFree)
    (hsize : ledger.encode.length < UInt64.size) : decode ledger.encode = .ok ledger := by
  unfold decode Wire.decodeAny encode
  rw [Wire.Message.ofBytes?_writeAll (Wire.Message.Ledger.writable _) hsize
    (Wire.Message.Ledger.read_fields (by decide) _ hsize)]
  simp only [h.ofMessage_toMessage]
  rfl

/-! ## Every ledger that there is -/

/-- No ledger but the empty one takes no bytes, be there balances in it or not. -/
theorem encode_eq_nil_iff {ledger : Ledger} : ledger.encode = [] ↔ ledger = .empty := by
  rw [encode, Wire.writeAll_eq_nil_iff ledger.toMessage.writable, Wire.Message.Ledger.fields,
    List.map_eq_nil_iff, toMessage, List.map_eq_nil_iff, ← List.isEmpty_iff,
    Std.ExtTreeMap.isEmpty_toList, Std.ExtTreeMap.isEmpty_iff]
  constructor
  · intro h
    show ledger = ⟨∅⟩
    rw [← h]
  · rintro rfl
    rfl

/-- The ledgers that one can come by: the empty one, those that are read from bytes, and what an
operation makes of one of them, whatever is merged in. -/
inductive Obtainable : Ledger → Prop where
  | empty : Obtainable .empty
  | decode {bytes : Bytes} {ledger : Ledger} (h : Ledger.decode bytes = .ok ledger) :
      Obtainable ledger
  | apply {ledger after : Ledger} {operation : Operation} (h : Obtainable ledger)
      (hok : ledger.apply operation = .ok after) : Obtainable after

theorem Obtainable.zeroFree {ledger : Ledger} (h : Obtainable ledger) : ledger.ZeroFree := by
  induction h with
  | empty => exact zeroFree_empty
  | decode h => exact zeroFree_decode h
  | apply _ hok ih => exact ih.apply hok

/-- Every ledger that one can come by reads back as it is from its bytes, of which there are none
only if it is empty. In particular, a ledger that was read from bytes of any form reads back from
the bytes it is written as. -/
theorem decode_encode_obtainable :
    (∀ ledger : Ledger, Obtainable ledger →
      (ledger.encode.length < UInt64.size → decode ledger.encode = .ok ledger) ∧
      (ledger.encode = [] ↔ ledger = .empty)) ∧
    (∀ (bytes : Bytes) (ledger : Ledger), decode bytes = .ok ledger →
      ledger.encode.length < UInt64.size → decode ledger.encode = .ok ledger) := by
  constructor
  · intro ledger h
    exact ⟨h.zeroFree.decode_encode, encode_eq_nil_iff⟩
  · intro bytes ledger h
    exact (zeroFree_decode h).decode_encode

/-- The first participant owes itself nothing in an asset without a name, and is asked for nothing;
into this another ledger is merged. -/
def mentioned : Ledger := (empty.request ⟨0, 0⟩ "" 0).merge (empty.request ⟨1, 0⟩ "ETH" 7)

theorem decode_encode_mentioned :
    Obtainable mentioned ∧ mentioned.encode.length < UInt64.size ∧
      mentioned.pair? ⟨0, 0⟩ = some .empty ∧ mentioned.pending ⟨1, 0⟩ "ETH" = 7 ∧
      decode mentioned.encode = .ok mentioned ∧ decode [] = .ok .empty := by
  have hempty : Obtainable .empty := .empty
  have hasked : Obtainable (empty.request ⟨0, 0⟩ "" 0) :=
    @Obtainable.apply _ _ (.request ⟨0, 0⟩ "" 0) hempty rfl
  have hmentioned : Obtainable mentioned :=
    @Obtainable.apply _ _ (.merge (empty.request ⟨1, 0⟩ "ETH" 7)) hasked rfl
  have hsize : mentioned.encode.length < UInt64.size := by decide +kernel
  obtain ⟨hback, -⟩ := decode_encode_obtainable.1 mentioned hmentioned
  obtain ⟨hbackEmpty, hnone⟩ := decode_encode_obtainable.1 .empty hempty
  have hbytes := hnone.mpr rfl
  rw [hbytes] at hbackEmpty
  exact ⟨hmentioned, hsize, by decide +kernel, by decide +kernel, hback hsize,
    hbackEmpty (by decide)⟩

end Ledger

end DebtChannel
