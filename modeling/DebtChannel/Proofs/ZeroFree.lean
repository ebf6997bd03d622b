import DebtChannel.Ledger.Message
import DebtChannel.Ledger.Operation
import DebtChannel.Proofs.Results

/-!
# No ledger keeps a balance of zero

The errors of a ledger speak of entries: there is no such pair, there is nothing pending in the
asset. What they mean is amounts. The two agree because an entry that would be zero is never there:
putting zero erases it, adding zero leaves it out, a sum is zero only if both parts are, and reading
a message drops zeros before anything else. `ZeroFree` says so of a ledger, and every operation keeps
it, whatever ledger is merged in, as does reading a ledger from bytes, from nothing.

Merging and writing both go through the entries of a map one by one. `foldl_toList` is what such a
walk comes to when it is watched at one key: no two entries have the same key, so at most one of
them is seen there.
-/

namespace DebtChannel

/-! ## Walks over the entries of a map -/

section Walk

variable {σ κ β γ : Type} {view : σ → κ → γ} {next : σ → κ × β → σ} {update : γ → β → γ}

/-- A walk that never comes to a key is not seen there. -/
theorem foldl_of_notMem (hother : ∀ s entry key, entry.1 ≠ key → view (next s entry) key = view s key)
    {key : κ} : ∀ {entries : List (κ × β)} {s : σ}, key ∉ entries.map Prod.fst →
      view (entries.foldl next s) key = view s key := by
  intro entries
  induction entries with
  | nil => intro s _; rfl
  | cons entry entries ih =>
      intro s hnot
      rw [List.map_cons, List.mem_cons, not_or] at hnot
      rw [List.foldl_cons, ih hnot.2, hother s entry key (Ne.symm hnot.1)]

/-- A walk that comes to a key once is seen there once. -/
theorem foldl_of_mem (hsame : ∀ s key value, view (next s (key, value)) key = update (view s key) value)
    (hother : ∀ s entry key, entry.1 ≠ key → view (next s entry) key = view s key)
    {key : κ} {value : β} : ∀ {entries : List (κ × β)} {s : σ}, (entries.map Prod.fst).Nodup →
      (key, value) ∈ entries → view (entries.foldl next s) key = update (view s key) value := by
  intro entries
  induction entries with
  | nil => intro s _ hmem; exact absurd hmem List.not_mem_nil
  | cons entry entries ih =>
      intro s hnodup hmem
      rw [List.map_cons, List.nodup_cons] at hnodup
      rw [List.foldl_cons]
      rcases List.mem_cons.mp hmem with rfl | hrest
      · rw [foldl_of_notMem hother hnodup.1, hsame]
      · -- The first entry has another key, so the walk is not seen there.
        have hne : entry.1 ≠ key := by
          rintro rfl
          exact hnodup.1 (List.mem_map.mpr ⟨_, hrest, rfl⟩)
        rw [ih hnodup.2 hrest, hother s entry key hne]

variable [Ord κ] [Std.TransOrd κ]

theorem nodup_map_fst_toList (entries : Std.ExtTreeMap κ β) :
    (entries.toList.map Prod.fst).Nodup := by
  rw [Std.ExtTreeMap.map_fst_toList_eq_keys]
  exact Std.ExtTreeMap.nodup_keys

variable (view next update) in
/-- A walk over the entries of a map, seen at one key. -/
theorem foldl_toList [Std.LawfulEqOrd κ]
    (hsame : ∀ s key value, view (next s (key, value)) key = update (view s key) value)
    (hother : ∀ s entry key, entry.1 ≠ key → view (next s entry) key = view s key)
    (entries : Std.ExtTreeMap κ β) (s : σ) (key : κ) :
    view (entries.toList.foldl next s) key
      = entries[key]?.elim (view s key) (update (view s key)) := by
  cases hentry : entries[key]? with
  | none =>
      refine foldl_of_notMem hother ?_
      rw [Std.ExtTreeMap.map_fst_toList_eq_keys, Std.ExtTreeMap.mem_keys,
        Std.ExtTreeMap.mem_iff_isSome_getElem?, hentry]
      simp
  | some value =>
      exact foldl_of_mem hsame hother (nodup_map_fst_toList entries)
        (Std.ExtTreeMap.mem_toList_iff_getElem?_eq_some.mpr hentry)

end Walk

/-! ## Amounts -/

namespace Amounts

variable {amounts : Amounts}

/-- No amount that is kept is zero. -/
def ZeroFree (amounts : Amounts) : Prop :=
  ∀ (asset : AssetCode) (value : Uint256), amounts[asset]? = some value → value ≠ 0

theorem amount_eq_getD (amounts : Amounts) (asset : AssetCode) :
    amounts.amount asset = amounts[asset]?.getD 0 :=
  Std.ExtTreeMap.getD_eq_getD_getElem?

theorem ZeroFree.getElem? (h : amounts.ZeroFree) (asset : AssetCode) :
    amounts[asset]? = if amounts.amount asset = 0 then none else some (amounts.amount asset) := by
  rw [amount_eq_getD]
  cases hentry : amounts[asset]? with
  | none => rfl
  | some value =>
      rw [Option.getD_some, if_neg (h asset value hentry)]

theorem zeroFree_empty : ZeroFree ∅ := by
  intro asset value hentry
  rw [Std.ExtTreeMap.getElem?_empty] at hentry
  cases hentry

theorem ZeroFree.insert (h : amounts.ZeroFree) (asset : AssetCode) {value : Uint256}
    (hne : value ≠ 0) : ZeroFree (Std.ExtTreeMap.insert amounts asset value) := by
  intro other found hfound
  rw [Std.ExtTreeMap.getElem?_insert] at hfound
  split at hfound
  · exact Option.some.inj hfound ▸ hne
  · exact h other found hfound

theorem ZeroFree.put (h : amounts.ZeroFree) (asset : AssetCode) (value : Uint256) :
    (amounts.put asset value).ZeroFree := by
  unfold Amounts.put
  split
  · intro other found hfound
    rw [Std.ExtTreeMap.getElem?_erase] at hfound
    split at hfound
    · cases hfound
    · exact h other found hfound
  · next hne => exact h.insert asset hne

/-- A sum is not zero unless both parts are. -/
theorem saturatingAdd_ne_zero (a : Uint256) {b : Uint256} (hne : b ≠ 0) :
    a.saturatingAdd b ≠ 0 := by
  intro hzero
  have hpos : 0 < b.toNat := Nat.pos_of_ne_zero fun h => hne (BitVec.eq_of_toNat_eq h)
  have hsum := Uint256.toNat_saturatingAdd a b
  have hmax : 0 < Uint256.max.toNat := by decide
  rw [hzero] at hsum
  have hnone : (0 : Uint256).toNat = 0 := rfl
  omega

theorem ZeroFree.add (h : amounts.ZeroFree) (asset : AssetCode) (more : Uint256) :
    (amounts.add asset more).ZeroFree := by
  unfold Amounts.add
  split
  · exact h
  · next hne => exact h.insert asset (saturatingAdd_ne_zero _ hne)

theorem ZeroFree.merge (h : amounts.ZeroFree) (more : Amounts) : (amounts.merge more).ZeroFree := by
  unfold Amounts.merge
  generalize more.toList = entries
  induction entries generalizing amounts with
  | nil => exact h
  | cons entry entries ih => exact ih (h.add entry.1 entry.2)

theorem amount_empty (asset : AssetCode) : amount ∅ asset = 0 := Std.ExtTreeMap.getD_empty

/-- The amounts of two collections are added asset by asset. -/
theorem amount_merge (amounts more : Amounts) (asset : AssetCode) :
    (amounts.merge more).amount asset
      = (amounts.amount asset).saturatingAdd (more.amount asset) := by
  have hwalk := foldl_toList amount (fun sums entry => add sums entry.1 entry.2)
    Uint256.saturatingAdd
    (fun sums key value => by rw [amount_add, if_pos rfl])
    (fun sums entry key hne => by rw [amount_add, if_neg hne]) more amounts asset
  rw [merge, hwalk, amount_eq_getD more]
  cases more[asset]? with
  | none => exact (Uint256.saturatingAdd_zero _).symm
  | some value => rfl

/-- What is read from a message is free of zeros, because they are left out. -/
theorem zeroFree_of_addMessages :
    ∀ {entries : List Wire.Message.AssetAmount} {amounts found : Amounts}, amounts.ZeroFree →
      amounts.addMessages entries = .ok found → found.ZeroFree := by
  intro entries
  induction entries with
  | nil =>
      intro amounts found hfree h
      obtain rfl := Except.ok.inj h
      exact hfree
  | cons entry entries ih =>
      intro amounts found hfree h
      rw [addMessages] at h
      cases hamount : Wire.uint256 "amount" entry.amount with
      | error cause => rw [hamount] at h; cases h
      | ok amount =>
          rw [hamount] at h
          simp only [bind, Except.bind] at h
          split at h
          · exact ih hfree h
          · next hne =>
              split at h
              · cases h
              · exact ih (hfree.insert entry.asset hne) h

theorem zeroFree_ofMessages {entries : List Wire.Message.AssetAmount} {found : Amounts}
    (h : ofMessages entries = .ok found) : found.ZeroFree :=
  zeroFree_of_addMessages zeroFree_empty h

end Amounts

/-! ## Ledgers -/

namespace Ledger

variable {ledger : Ledger}

/-- No balance that is kept is zero. -/
def ZeroFree (ledger : Ledger) : Prop :=
  ∀ pair balances, ledger.pair? pair = some balances →
    balances.pending.ZeroFree ∧ balances.executed.ZeroFree

theorem pair?_empty (pair : Pair) : empty.pair? pair = none := Std.ExtTreeMap.getElem?_empty

theorem zeroFree_empty : empty.ZeroFree := by
  intro pair balances h
  rw [pair?_empty] at h
  cases h

theorem ZeroFree.balances (h : ledger.ZeroFree) (pair : Pair) :
    (ledger.balances pair).pending.ZeroFree ∧ (ledger.balances pair).executed.ZeroFree := by
  unfold Ledger.balances
  cases hpair : ledger.pair? pair with
  | none => exact ⟨Amounts.zeroFree_empty, Amounts.zeroFree_empty⟩
  | some balances => exact h pair balances hpair

theorem ZeroFree.put (h : ledger.ZeroFree) (pair : Pair) {balances : Balances}
    (hpending : balances.pending.ZeroFree) (hexecuted : balances.executed.ZeroFree) :
    (ledger.put pair balances).ZeroFree := by
  intro other found hfound
  rw [pair?_put] at hfound
  split at hfound
  · obtain rfl := Option.some.inj hfound
    exact ⟨hpending, hexecuted⟩
  · exact h other found hfound

theorem ZeroFree.request (h : ledger.ZeroFree) (pair : Pair) (asset : AssetCode)
    (amount : Uint256) : (ledger.request pair asset amount).ZeroFree :=
  h.put pair ((h.balances pair).1.add asset amount) (h.balances pair).2

theorem takePending_ok {pair : Pair} {asset : AssetCode} {amount : Uint256} {after : Balances}
    (h : ledger.takePending pair asset amount = .ok after) :
    ∃ balances pending, ledger.pair? pair = some balances ∧
      balances.pending[asset]? = some pending ∧ amount ≤ pending ∧
      after = { balances with pending := balances.pending.put asset (pending - amount) } := by
  unfold takePending at h
  split at h
  · cases h
  · next balances hbalances =>
      split at h
      · cases h
      · next pending hpending =>
          split at h
          · cases h
          · next hnlt =>
              obtain rfl := Except.ok.inj h
              exact ⟨balances, pending, hbalances, hpending, BitVec.not_lt.mp hnlt, rfl⟩

theorem ZeroFree.takePending (h : ledger.ZeroFree) {pair : Pair} {asset : AssetCode}
    {amount : Uint256} {after : Balances} (hok : ledger.takePending pair asset amount = .ok after) :
    after.pending.ZeroFree ∧ after.executed.ZeroFree := by
  obtain ⟨balances, pending, hbalances, -, -, rfl⟩ := takePending_ok hok
  obtain ⟨hpending, hexecuted⟩ := h pair balances hbalances
  exact ⟨hpending.put asset _, hexecuted⟩

theorem ZeroFree.acknowledge (h : ledger.ZeroFree) {pair : Pair} {asset : AssetCode}
    {amount : Uint256} {after : Ledger} (hok : ledger.acknowledge pair asset amount = .ok after) :
    after.ZeroFree := by
  obtain ⟨balances, htaken, rfl⟩ := exists_ok_of_map_eq_ok hok
  obtain ⟨hpending, hexecuted⟩ := h.takePending htaken
  exact h.put pair hpending (hexecuted.put asset amount)

theorem ZeroFree.revert (h : ledger.ZeroFree) {pair : Pair} {asset : AssetCode}
    {amount : Uint256} {after : Ledger} (hok : ledger.revert pair asset amount = .ok after) :
    after.ZeroFree := by
  obtain ⟨balances, htaken, rfl⟩ := exists_ok_of_map_eq_ok hok
  obtain ⟨hpending, hexecuted⟩ := h.takePending htaken
  exact h.put pair hpending hexecuted

theorem ZeroFree.merge (h : ledger.ZeroFree) (more : Ledger) : (ledger.merge more).ZeroFree := by
  unfold Ledger.merge
  generalize more.pairs.toList = entries
  induction entries generalizing ledger with
  | nil => exact h
  | cons entry entries ih =>
      obtain ⟨hpending, hexecuted⟩ := h.balances entry.1
      exact ih (h.put entry.1 (hpending.merge _) (hexecuted.merge _))

theorem ZeroFree.apply (h : ledger.ZeroFree) {operation : Operation} {after : Ledger}
    (hok : ledger.apply operation = .ok after) : after.ZeroFree := by
  cases operation with
  | request pair asset amount =>
      obtain rfl := Except.ok.inj hok
      exact h.request pair asset amount
  | acknowledge pair asset amount => exact h.acknowledge hok
  | revert pair asset amount => exact h.revert hok
  | merge more =>
      obtain rfl := Except.ok.inj hok
      exact h.merge more

theorem ZeroFree.step (h : ledger.ZeroFree) (operation : Operation) :
    (ledger.step operation).after.ZeroFree := by
  unfold Ledger.step
  split
  · next hok => exact h.apply hok
  · exact h

theorem zeroFree_of_addMessages :
    ∀ {entries : List Wire.Message.Liability} {ledger found : Ledger}, ledger.ZeroFree →
      ledger.addMessages entries = .ok found → found.ZeroFree := by
  intro entries
  induction entries with
  | nil =>
      intro ledger found hfree h
      obtain rfl := Except.ok.inj h
      exact hfree
  | cons entry entries ih =>
      intro ledger found hfree h
      rw [addMessages] at h
      cases hpending : Amounts.ofMessages entry.pending with
      | error cause => rw [hpending] at h; cases h
      | ok pending =>
          cases hexecuted : Amounts.ofMessages entry.executed with
          | error cause => rw [hpending, hexecuted] at h; cases h
          | ok executed =>
              rw [hpending, hexecuted] at h
              simp only [bind, Except.bind] at h
              split at h
              · cases h
              · exact ih (hfree.put _ (Amounts.zeroFree_ofMessages hpending)
                  (Amounts.zeroFree_ofMessages hexecuted)) h

theorem zeroFree_ofMessage {message : Wire.Message.Ledger} (h : ofMessage message = .ok ledger) :
    ledger.ZeroFree :=
  zeroFree_of_addMessages zeroFree_empty h

theorem zeroFree_decode {bytes : Bytes} (h : decode bytes = .ok ledger) : ledger.ZeroFree := by
  unfold decode Wire.decodeAny at h
  split at h
  · cases h
  · next message _ =>
      cases hmessage : ofMessage message with
      | error cause => rw [hmessage] at h; cases h
      | ok found =>
          rw [hmessage] at h
          obtain rfl := Except.ok.inj h
          exact zeroFree_ofMessage hmessage

end Ledger

end DebtChannel
