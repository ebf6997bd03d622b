import DebtChannel.Proofs.ZeroFree
import Mathlib.Logic.Basic

/-!
# Which messages are ledgers

The amounts of a pair come as a list, and so do the pairs, while a ledger keeps both in maps. A list
can say one thing twice; a map cannot, and which of the two would be kept should not hang on the
order. So a key that comes twice is refused. An amount of zero is not kept at all and may come as
often as it likes, but it has to fit into 256 bits like any other.

Both lists are read by the same kind of walk. It looks at an entry together with what it has found
before, which is a map, and not the entries themselves; that a key is in the map says that an
earlier entry put it there. `Judges` ties the two: what has been found records the entries so far
(`Records`), and an entry is refused exactly if it is wrong behind the entries so far (`Wrong`). The
rest is two inductions over a list, done once for any such walk. Without a wrong entry the walk
goes through; otherwise it stops at the first one, for the cause that this one is wrong.

There is one ledger only that records what a message says (`Records.unique`), and it records the
entries in any other order as well.
-/

namespace DebtChannel

open Wire (ContentError)

/-! ## Walks that look back -/

theorem forall_pairwise_snoc_iff {α : Type} {p : α → Prop} {r : α → α → Prop} {before : List α}
    {entry : α} :
    ((∀ other ∈ before ++ [entry], p other) ∧ (before ++ [entry]).Pairwise r) ↔
      ((∀ other ∈ before, p other) ∧ before.Pairwise r) ∧
        p entry ∧ ∀ earlier ∈ before, r earlier entry := by
  rw [List.forall_mem_append, List.forall_mem_singleton, List.pairwise_append]
  simp only [List.mem_singleton, forall_eq, List.pairwise_singleton, true_and]
  exact and_and_and_comm

section Walk

variable {σ α ε : Type} {read : σ → α → Except ε σ} {Fine : List α → Prop}
  {Wrong : List α → α → ε → Prop} {Records : σ → List α → Prop}

/-- The first entry that is wrong, seen together with those before it, and why it is. -/
def FirstWrong (Fine : List α → Prop) (Wrong : List α → α → ε → Prop) (entries : List α)
    (cause : ε) : Prop :=
  ∃ before entry after, entries = before ++ entry :: after ∧ Fine before ∧ Wrong before entry cause

/-- Reading one entry refuses exactly what is wrong with it, and otherwise leaves behind what the
entries up to it say. -/
structure Judges (read : σ → α → Except ε σ) (Fine : List α → Prop)
    (Wrong : List α → α → ε → Prop) (Records : σ → List α → Prop) : Prop where
  fine_nil : Fine []
  fine_snoc : ∀ {before entry}, Fine (before ++ [entry]) ↔
    Fine before ∧ ∀ cause, ¬ Wrong before entry cause
  error_iff : ∀ {before entry found cause}, Fine before → Records found before →
    (read found entry = .error cause ↔ Wrong before entry cause)
  records : ∀ {before entry found next}, Fine before → Records found before →
    read found entry = .ok next → Records next (before ++ [entry])

namespace Judges

theorem not_wrong (h : Judges read Fine Wrong Records) {before : List α} {entry : α}
    {found next : σ} (hfine : Fine before) (hrecords : Records found before)
    (hok : read found entry = .ok next) (cause : ε) : ¬ Wrong before entry cause := by
  rw [← h.error_iff hfine hrecords, hok]
  nofun

theorem fine_of_append (h : Judges read Fine Wrong Records) :
    ∀ {rest before : List α}, Fine (before ++ rest) → Fine before := by
  intro rest
  induction rest with
  | nil => intro before hfine; rwa [List.append_nil] at hfine
  | cons entry rest ih =>
      intro before hfine
      rw [List.append_cons] at hfine
      exact (h.fine_snoc.mp (ih hfine)).1

theorem of_foldlM_eq_ok (h : Judges read Fine Wrong Records) :
    ∀ {rest before : List α} {found last : σ}, Fine before → Records found before →
      rest.foldlM read found = .ok last →
      Fine (before ++ rest) ∧ Records last (before ++ rest) := by
  intro rest
  induction rest with
  | nil =>
      intro before found last hfine hrecords hok
      obtain rfl := Except.ok.inj hok
      rw [List.append_nil]
      exact ⟨hfine, hrecords⟩
  | cons entry rest ih =>
      intro before found last hfine hrecords hok
      rw [List.foldlM_cons] at hok
      obtain ⟨next, hnext, hrest⟩ := exists_ok_of_bind_eq_ok hok
      rw [List.append_cons]
      exact ih (h.fine_snoc.mpr ⟨hfine, h.not_wrong hfine hrecords hnext⟩)
        (h.records hfine hrecords hnext) hrest

theorem of_foldlM_eq_error (h : Judges read Fine Wrong Records) {cause : ε} :
    ∀ {rest before : List α} {found : σ}, Fine before → Records found before →
      rest.foldlM read found = .error cause → FirstWrong Fine Wrong (before ++ rest) cause := by
  intro rest
  induction rest with
  | nil => intro before found _ _ herror; cases herror
  | cons entry rest ih =>
      intro before found hfine hrecords herror
      rw [List.foldlM_cons] at herror
      rcases eq_error_or_of_bind_eq_error herror with hhere | ⟨next, hnext, hrest⟩
      · exact ⟨before, entry, rest, rfl, hfine, (h.error_iff hfine hrecords).mp hhere⟩
      · rw [List.append_cons]
        exact ih (h.fine_snoc.mpr ⟨hfine, h.not_wrong hfine hrecords hnext⟩)
          (h.records hfine hrecords hnext) hrest

variable {start : σ} {entries : List α}

theorem exists_ok_iff (h : Judges read Fine Wrong Records) (hstart : Records start []) :
    (∃ last, entries.foldlM read start = .ok last) ↔ Fine entries := by
  constructor
  · rintro ⟨last, hok⟩
    exact (h.of_foldlM_eq_ok h.fine_nil hstart hok).1
  · intro hfine
    cases hread : entries.foldlM read start with
    | ok last => exact ⟨last, rfl⟩
    | error cause =>
        -- The entry that was refused is fine, since it is one of the entries up to it.
        obtain ⟨before, entry, after, hsplit, -, hwrong⟩ :=
          h.of_foldlM_eq_error h.fine_nil hstart hread
        rw [List.nil_append] at hsplit
        rw [hsplit, List.append_cons] at hfine
        exact absurd hwrong ((h.fine_snoc.mp (h.fine_of_append hfine)).2 cause)

theorem records_of_ok (h : Judges read Fine Wrong Records) (hstart : Records start []) {last : σ}
    (hok : entries.foldlM read start = .ok last) : Records last entries :=
  (h.of_foldlM_eq_ok h.fine_nil hstart hok).2

theorem eq_error_iff (h : Judges read Fine Wrong Records) (hstart : Records start []) {cause : ε} :
    entries.foldlM read start = .error cause ↔ FirstWrong Fine Wrong entries cause := by
  constructor
  · exact fun herror => h.of_foldlM_eq_error h.fine_nil hstart herror
  · rintro ⟨before, entry, after, rfl, hfine, hwrong⟩
    obtain ⟨found, hfound⟩ := (h.exists_ok_iff hstart).mpr hfine
    have hrecords := h.records_of_ok hstart hfound
    rw [List.foldlM_append, hfound]
    show List.foldlM read found (entry :: after) = .error cause
    rw [List.foldlM_cons, (h.error_iff hfine hrecords).mpr hwrong]
    rfl

end Judges

end Walk

namespace Wire.Message

/-! ## What is wrong with a message -/

namespace AssetAmount

/-- The number that the bytes of the amount stand for. -/
def number (entry : AssetAmount) : Nat := entry.amount.ofBigEndian

/-- Both entries give an amount of the same asset. An amount of zero is as good as none. -/
def Rivals (entry other : AssetAmount) : Prop :=
  entry.asset = other.asset ∧ entry.number ≠ 0 ∧ other.number ≠ 0

instance (entry other : AssetAmount) : Decidable (Rivals entry other) :=
  inferInstanceAs (Decidable (_ ∧ _ ∧ _))

/-- Every amount fits into 256 bits, and no two entries give an amount of the same asset. -/
def Clear (entries : List AssetAmount) : Prop :=
  (∀ entry ∈ entries, entry.amount.length ≤ 32) ∧
    entries.Pairwise fun entry other => ¬ Rivals entry other

instance (entries : List AssetAmount) : Decidable (Clear entries) :=
  inferInstanceAs (Decidable (_ ∧ _))

/-- What is wrong with an entry that stands behind others. -/
inductive Wrong (before : List AssetAmount) (entry : AssetAmount) : ContentError → Prop where
  | tooLong (hlong : 32 < entry.amount.length) :
      Wrong before entry (.byteLengthMismatch "amount" 32 entry.amount.length)
  | again {earlier : AssetAmount} (hfits : entry.amount.length ≤ 32) (hmem : earlier ∈ before)
      (hrivals : Rivals earlier entry) : Wrong before entry (.duplicateAsset entry.asset)

theorem not_wrong_iff {before : List AssetAmount} {entry : AssetAmount} :
    (∀ cause, ¬ Wrong before entry cause) ↔
      entry.amount.length ≤ 32 ∧ ∀ earlier ∈ before, ¬ Rivals earlier entry := by
  constructor
  · intro h
    have hfits : entry.amount.length ≤ 32 := Nat.le_of_not_lt fun hlong => h _ (.tooLong hlong)
    exact ⟨hfits, fun earlier hmem hrivals => h _ (.again hfits hmem hrivals)⟩
  · rintro ⟨hfits, hnone⟩ cause hwrong
    cases hwrong with
    | tooLong hlong => exact Nat.not_lt_of_le hfits hlong
    | again _ hmem hrivals => exact hnone _ hmem hrivals

theorem clear_snoc_iff {before : List AssetAmount} {entry : AssetAmount} :
    Clear (before ++ [entry]) ↔ Clear before ∧ ∀ cause, ¬ Wrong before entry cause := by
  rw [not_wrong_iff]
  exact forall_pairwise_snoc_iff

end AssetAmount

namespace Liability

/-- The pair that owes and is owed. -/
def pair (entry : Liability) : Pair := ⟨entry.debtor, entry.creditor⟩

/-- The amounts of every pair are clear, and no pair is mentioned twice. -/
def Clear (entries : List Liability) : Prop :=
  (∀ entry ∈ entries, AssetAmount.Clear entry.pending ∧ AssetAmount.Clear entry.executed) ∧
    entries.Pairwise fun entry other => entry.pair ≠ other.pair

instance (entries : List Liability) : Decidable (Clear entries) :=
  inferInstanceAs (Decidable (_ ∧ _))

/-- What is wrong with an entry that stands behind others. What is pending is looked at first, then
what is executed, and then the pair. -/
inductive Wrong (before : List Liability) (entry : Liability) : ContentError → Prop where
  | pending {cause : ContentError}
      (hfirst : FirstWrong AssetAmount.Clear AssetAmount.Wrong entry.pending cause) :
      Wrong before entry cause
  | executed {cause : ContentError} (hpending : AssetAmount.Clear entry.pending)
      (hfirst : FirstWrong AssetAmount.Clear AssetAmount.Wrong entry.executed cause) :
      Wrong before entry cause
  | again {earlier : Liability} (hpending : AssetAmount.Clear entry.pending)
      (hexecuted : AssetAmount.Clear entry.executed) (hmem : earlier ∈ before)
      (hsame : earlier.pair = entry.pair) :
      Wrong before entry (.duplicateLiability entry.debtor entry.creditor)

end Liability

end Wire.Message

open Wire.Message (AssetAmount Liability)

/-! ## Amounts -/

namespace Amounts

/-- The amounts are those of the entries that are not zero. -/
def Records (amounts : Amounts) (entries : List AssetAmount) : Prop :=
  ∀ (asset : AssetCode) (value : Uint256), amounts[asset]? = some value ↔
    value ≠ 0 ∧ ∃ entry ∈ entries, entry.asset = asset ∧ entry.number = value.toNat

/-- The amounts read so far with that of one more entry. -/
def addMessage (amounts : Amounts) (entry : AssetAmount) : Except ContentError Amounts := do
  let amount ← Wire.uint256 "amount" entry.amount
  if amount = 0 then .ok amounts
  else if entry.asset ∈ amounts then .error (.duplicateAsset entry.asset)
  else .ok (amounts.insert entry.asset amount)

theorem addMessages_eq_foldlM (entries : List AssetAmount) (amounts : Amounts) :
    amounts.addMessages entries = entries.foldlM addMessage amounts := by
  induction entries generalizing amounts with
  | nil => rfl
  | cons entry entries ih =>
      rw [addMessages, List.foldlM_cons, addMessage]
      cases Wire.uint256 "amount" entry.amount with
      | error cause => rfl
      | ok amount =>
          simp only [bind, Except.bind]
          split
          · exact ih amounts
          · split
            · rfl
            · exact ih _

theorem addMessage_eq (amounts : Amounts) (entry : AssetAmount) :
    amounts.addMessage entry =
      if 32 < entry.amount.length then
        .error (.byteLengthMismatch "amount" 32 entry.amount.length)
      else if entry.number = 0 then .ok amounts
      else if entry.asset ∈ amounts then .error (.duplicateAsset entry.asset)
      else .ok (amounts.insert entry.asset (Uint256.ofBytes entry.amount)) := by
  rw [addMessage, Wire.uint256]
  by_cases hfits : entry.amount.length ≤ 32
  · have hzero : Uint256.ofBytes entry.amount = 0 ↔ entry.number = 0 := by
      rw [← BitVec.toNat_inj, Uint256.toNat_ofBytes hfits]
      exact Iff.rfl
    rw [if_pos hfits, if_neg (Nat.not_lt_of_le hfits)]
    simp only [bind, Except.bind, hzero]
  · rw [if_neg hfits, if_pos (Nat.lt_of_not_le hfits)]
    rfl

/-- The map has an asset exactly if an entry gives an amount of it. -/
theorem Records.mem_iff {amounts : Amounts} {entries : List AssetAmount}
    (h : amounts.Records entries) (hfit : ∀ entry ∈ entries, entry.amount.length ≤ 32)
    (asset : AssetCode) :
    asset ∈ amounts ↔ ∃ entry ∈ entries, entry.asset = asset ∧ entry.number ≠ 0 := by
  rw [Std.ExtTreeMap.mem_iff_isSome_getElem?, Option.isSome_iff_exists]
  simp only [h asset]
  constructor
  · rintro ⟨value, hne, entry, hmem, hasset, hnumber⟩
    refine ⟨entry, hmem, hasset, fun hzero => hne (BitVec.eq_of_toNat_eq ?_)⟩
    rw [← hnumber, hzero]
    rfl
  · rintro ⟨entry, hmem, hasset, hne⟩
    have hvalue : (Uint256.ofBytes entry.amount).toNat = entry.number :=
      Uint256.toNat_ofBytes (hfit entry hmem)
    refine ⟨Uint256.ofBytes entry.amount, fun hzero => hne ?_, entry, hmem, hasset, hvalue.symm⟩
    rw [← hvalue, hzero]
    rfl

theorem Records.zero {amounts : Amounts} {before : List AssetAmount} {entry : AssetAmount}
    (h : amounts.Records before) (hzero : entry.number = 0) :
    amounts.Records (before ++ [entry]) := by
  intro asset value
  rw [h asset value]
  refine and_congr_right fun hne => ?_
  have hnot : entry.number ≠ value.toNat := by
    rw [hzero]
    exact fun h => hne (BitVec.eq_of_toNat_eq h.symm)
  simp only [List.mem_append, List.mem_singleton, or_and_right, exists_or, exists_eq_left, hnot,
    and_false, or_false]

theorem Records.insert {amounts : Amounts} {before : List AssetAmount} {entry : AssetAmount}
    (h : amounts.Records before) (hfits : entry.amount.length ≤ 32) (hne : entry.number ≠ 0)
    (hnew : ∀ earlier ∈ before, earlier.asset = entry.asset → earlier.number = 0) :
    Records (amounts.insert entry.asset (Uint256.ofBytes entry.amount)) (before ++ [entry]) := by
  have hvalue : (Uint256.ofBytes entry.amount).toNat = entry.number := Uint256.toNat_ofBytes hfits
  intro asset value
  rw [Std.ExtTreeMap.getElem?_insert]
  simp only [Std.LawfulEqOrd.compare_eq_iff_eq, List.mem_append, List.mem_singleton, or_and_right,
    exists_or, exists_eq_left]
  split
  · next hasset =>
      have hnone : ¬ (value ≠ 0 ∧ ∃ earlier ∈ before,
          earlier.asset = asset ∧ earlier.number = value.toNat) := by
        rintro ⟨hvalue, earlier, hmem, hasset', hnumber⟩
        rw [hnew earlier hmem (hasset'.trans hasset.symm)] at hnumber
        exact hvalue (BitVec.eq_of_toNat_eq hnumber.symm)
      rw [Option.some.injEq, and_or_left]
      constructor
      · rintro rfl
        refine .inr ⟨fun hzero => hne ?_, hasset, hvalue.symm⟩
        rw [← hvalue, hzero]
        rfl
      · rintro (hbefore | ⟨-, -, hnumber⟩)
        · exact absurd hbefore hnone
        · exact BitVec.eq_of_toNat_eq (hvalue.trans hnumber)
  · next hasset =>
      simp only [hasset, false_and, or_false]
      exact h asset value

theorem addMessage_eq_error_iff {amounts : Amounts} {before : List AssetAmount}
    {entry : AssetAmount} {cause : ContentError} (hclear : AssetAmount.Clear before)
    (hrecords : amounts.Records before) :
    amounts.addMessage entry = .error cause ↔ AssetAmount.Wrong before entry cause := by
  rw [addMessage_eq]
  constructor
  · intro herror
    split at herror
    · next hlong =>
        obtain rfl := Except.error.inj herror
        exact .tooLong hlong
    next hfits =>
    split at herror
    · cases herror
    next hne =>
    split at herror
    · next hmem =>
        obtain rfl := Except.error.inj herror
        obtain ⟨earlier, hearlier, hasset, hnumber⟩ := (hrecords.mem_iff hclear.1 _).mp hmem
        exact .again (Nat.le_of_not_lt hfits) hearlier ⟨hasset, hnumber, hne⟩
    · cases herror
  · intro hwrong
    cases hwrong with
    | tooLong hlong => exact if_pos hlong
    | again hfits hearlier hrivals =>
        obtain ⟨hasset, hnumber, hne⟩ := hrivals
        have hmem := (hrecords.mem_iff hclear.1 _).mpr ⟨_, hearlier, hasset, hnumber⟩
        rw [if_neg (Nat.not_lt_of_le hfits), if_neg hne, if_pos hmem]

theorem Records.addMessage {amounts next : Amounts} {before : List AssetAmount}
    {entry : AssetAmount} (hclear : AssetAmount.Clear before) (h : amounts.Records before)
    (hok : amounts.addMessage entry = .ok next) : next.Records (before ++ [entry]) := by
  rw [addMessage_eq] at hok
  split at hok
  · cases hok
  next hfits =>
  split at hok
  · next hzero =>
      obtain rfl := Except.ok.inj hok
      exact h.zero hzero
  next hne =>
  split at hok
  · cases hok
  next hnot =>
  obtain rfl := Except.ok.inj hok
  rw [h.mem_iff hclear.1] at hnot
  refine h.insert (Nat.le_of_not_lt hfits) hne fun earlier hmem hasset => ?_
  by_cases hzero : earlier.number = 0
  · exact hzero
  · exact absurd ⟨earlier, hmem, hasset, hzero⟩ hnot

theorem judges_addMessage :
    Judges addMessage AssetAmount.Clear AssetAmount.Wrong Records where
  fine_nil := ⟨fun _ hmem => absurd hmem List.not_mem_nil, .nil⟩
  fine_snoc := AssetAmount.clear_snoc_iff
  error_iff := addMessage_eq_error_iff
  records := Records.addMessage

theorem records_empty : Records ∅ [] := by
  intro asset value
  rw [Std.ExtTreeMap.getElem?_empty]
  constructor
  · nofun
  · rintro ⟨-, entry, hmem, -⟩
    exact absurd hmem List.not_mem_nil

variable {entries : List AssetAmount}

theorem ofMessages_eq_foldlM : ofMessages entries = entries.foldlM addMessage ∅ :=
  addMessages_eq_foldlM entries ∅

theorem exists_ofMessages_iff :
    (∃ amounts, ofMessages entries = .ok amounts) ↔ AssetAmount.Clear entries := by
  rw [ofMessages_eq_foldlM]
  exact judges_addMessage.exists_ok_iff records_empty

theorem records_of_ofMessages {amounts : Amounts} (h : ofMessages entries = .ok amounts) :
    amounts.Records entries := by
  rw [ofMessages_eq_foldlM] at h
  exact judges_addMessage.records_of_ok records_empty h

theorem ofMessages_eq_error_iff {cause : ContentError} :
    ofMessages entries = .error cause ↔
      FirstWrong AssetAmount.Clear AssetAmount.Wrong entries cause := by
  rw [ofMessages_eq_foldlM]
  exact judges_addMessage.eq_error_iff records_empty

theorem clear_of_forall_not_firstWrong
    (h : ∀ cause, ¬ FirstWrong AssetAmount.Clear AssetAmount.Wrong entries cause) :
    AssetAmount.Clear entries := by
  rw [← exists_ofMessages_iff]
  cases hread : ofMessages entries with
  | ok amounts => exact ⟨amounts, rfl⟩
  | error cause => exact absurd (ofMessages_eq_error_iff.mp hread) (h cause)

theorem not_firstWrong_of_clear (h : AssetAmount.Clear entries) (cause : ContentError) :
    ¬ FirstWrong AssetAmount.Clear AssetAmount.Wrong entries cause := by
  rw [← ofMessages_eq_error_iff]
  intro herror
  obtain ⟨amounts, hok⟩ := exists_ofMessages_iff.mpr h
  rw [herror] at hok
  cases hok

end Amounts

/-! ## Ledgers -/

namespace Wire.Message.Liability

theorem not_wrong_iff {before : List Liability} {entry : Liability} :
    (∀ cause, ¬ Wrong before entry cause) ↔
      (AssetAmount.Clear entry.pending ∧ AssetAmount.Clear entry.executed) ∧
        ∀ earlier ∈ before, earlier.pair ≠ entry.pair := by
  constructor
  · intro h
    have hpending : AssetAmount.Clear entry.pending := Amounts.clear_of_forall_not_firstWrong
      fun cause hfirst => h cause (.pending hfirst)
    have hexecuted : AssetAmount.Clear entry.executed := Amounts.clear_of_forall_not_firstWrong
      fun cause hfirst => h cause (.executed hpending hfirst)
    exact ⟨⟨hpending, hexecuted⟩,
      fun earlier hmem hsame => h _ (.again hpending hexecuted hmem hsame)⟩
  · rintro ⟨⟨hpending, hexecuted⟩, hnew⟩ cause hwrong
    cases hwrong with
    | pending hfirst => exact Amounts.not_firstWrong_of_clear hpending cause hfirst
    | executed _ hfirst => exact Amounts.not_firstWrong_of_clear hexecuted cause hfirst
    | again _ _ hmem hsame => exact hnew _ hmem hsame

theorem clear_snoc_iff {before : List Liability} {entry : Liability} :
    Clear (before ++ [entry]) ↔ Clear before ∧ ∀ cause, ¬ Wrong before entry cause := by
  rw [not_wrong_iff]
  exact forall_pairwise_snoc_iff

end Wire.Message.Liability

namespace Ledger

/-- The ledger has the pairs of the entries and, for each, the amounts of the entry. -/
structure Records (ledger : Ledger) (entries : List Liability) : Prop where
  known : ∀ pair, (ledger.pair? pair).isSome ↔ ∃ entry ∈ entries, entry.pair = pair
  amounts : ∀ entry ∈ entries, (ledger.balances entry.pair).pending.Records entry.pending ∧
    (ledger.balances entry.pair).executed.Records entry.executed

/-- The ledger read so far with the pair of one more entry. -/
def addMessage (ledger : Ledger) (entry : Liability) : Except ContentError Ledger := do
  let pending ← Amounts.ofMessages entry.pending
  let executed ← Amounts.ofMessages entry.executed
  if entry.pair ∈ ledger.pairs then .error (.duplicateLiability entry.debtor entry.creditor)
  else .ok (ledger.put entry.pair ⟨pending, executed⟩)

theorem addMessages_eq_foldlM (entries : List Liability) (ledger : Ledger) :
    ledger.addMessages entries = entries.foldlM addMessage ledger := by
  induction entries generalizing ledger with
  | nil => rfl
  | cons entry entries ih =>
      rw [addMessages, List.foldlM_cons, addMessage]
      cases Amounts.ofMessages entry.pending with
      | error cause => rfl
      | ok pending =>
          cases Amounts.ofMessages entry.executed with
          | error cause => rfl
          | ok executed =>
              simp only [bind, Except.bind]
              show (if entry.pair ∈ ledger.pairs then _ else _) = _
              split
              · rfl
              · exact ih _

theorem Records.mem_iff {ledger : Ledger} {entries : List Liability} (h : ledger.Records entries)
    {pair : Pair} : pair ∈ ledger.pairs ↔ ∃ entry ∈ entries, entry.pair = pair := by
  rw [Std.ExtTreeMap.mem_iff_isSome_getElem?]
  exact h.known pair

theorem Records.put {ledger : Ledger} {before : List Liability} {entry : Liability}
    {balances : Balances} (h : ledger.Records before)
    (hnew : ∀ earlier ∈ before, earlier.pair ≠ entry.pair)
    (hpending : balances.pending.Records entry.pending)
    (hexecuted : balances.executed.Records entry.executed) :
    (ledger.put entry.pair balances).Records (before ++ [entry]) := by
  have hother : ∀ earlier ∈ before,
      (ledger.put entry.pair balances).balances earlier.pair = ledger.balances earlier.pair := by
    intro earlier hmem
    rw [Ledger.balances, pair?_put, if_neg (hnew earlier hmem).symm]
    rfl
  have hself : (ledger.put entry.pair balances).balances entry.pair = balances := by
    rw [Ledger.balances, pair?_put, if_pos rfl]
    rfl
  constructor
  · intro pair
    rw [pair?_put]
    simp only [List.mem_append, List.mem_singleton, or_and_right, exists_or, exists_eq_left]
    split
    · next hsame => simp [hsame]
    · next hother => simp [hother, h.known]
  · intro found hmem
    rcases List.mem_append.mp hmem with hmem | hmem
    · rw [hother found hmem]
      exact h.amounts found hmem
    · obtain rfl := List.mem_singleton.mp hmem
      rw [hself]
      exact ⟨hpending, hexecuted⟩

theorem addMessage_eq_error_iff {ledger : Ledger} {before : List Liability} {entry : Liability}
    {cause : ContentError} (hrecords : ledger.Records before) :
    ledger.addMessage entry = .error cause ↔ Liability.Wrong before entry cause := by
  constructor
  · intro herror
    rcases eq_error_or_of_bind_eq_error herror with hfirst | ⟨pending, hpending, herror⟩
    · exact .pending (Amounts.ofMessages_eq_error_iff.mp hfirst)
    have hpending := Amounts.exists_ofMessages_iff.mp ⟨_, hpending⟩
    rcases eq_error_or_of_bind_eq_error herror with hfirst | ⟨executed, hexecuted, herror⟩
    · exact .executed hpending (Amounts.ofMessages_eq_error_iff.mp hfirst)
    have hexecuted := Amounts.exists_ofMessages_iff.mp ⟨_, hexecuted⟩
    split at herror
    · next hmem =>
        obtain rfl := Except.error.inj herror
        obtain ⟨earlier, hearlier, hsame⟩ := hrecords.mem_iff.mp hmem
        exact .again hpending hexecuted hearlier hsame
    · cases herror
  · intro hwrong
    rw [addMessage]
    cases hwrong with
    | pending hfirst =>
        rw [Amounts.ofMessages_eq_error_iff.mpr hfirst]
        rfl
    | executed hpending hfirst =>
        obtain ⟨pending, hpending⟩ := Amounts.exists_ofMessages_iff.mpr hpending
        rw [hpending, Amounts.ofMessages_eq_error_iff.mpr hfirst]
        rfl
    | again hpending hexecuted hearlier hsame =>
        obtain ⟨pending, hpending⟩ := Amounts.exists_ofMessages_iff.mpr hpending
        obtain ⟨executed, hexecuted⟩ := Amounts.exists_ofMessages_iff.mpr hexecuted
        rw [hpending, hexecuted]
        exact if_pos (hrecords.mem_iff.mpr ⟨_, hearlier, hsame⟩)

theorem Records.addMessage {ledger next : Ledger} {before : List Liability} {entry : Liability}
    (h : ledger.Records before) (hok : ledger.addMessage entry = .ok next) :
    next.Records (before ++ [entry]) := by
  obtain ⟨pending, hpending, hok⟩ := exists_ok_of_bind_eq_ok hok
  obtain ⟨executed, hexecuted, hok⟩ := exists_ok_of_bind_eq_ok hok
  split at hok
  · cases hok
  next hnot =>
  obtain rfl := Except.ok.inj hok
  rw [h.mem_iff] at hnot
  exact h.put (fun earlier hmem hsame => hnot ⟨earlier, hmem, hsame⟩)
    (Amounts.records_of_ofMessages hpending) (Amounts.records_of_ofMessages hexecuted)

theorem judges_addMessage : Judges addMessage Liability.Clear Liability.Wrong Records where
  fine_nil := ⟨fun _ hmem => absurd hmem List.not_mem_nil, .nil⟩
  fine_snoc := Liability.clear_snoc_iff
  error_iff := fun _ => addMessage_eq_error_iff
  records := fun _ => Records.addMessage

theorem records_empty : empty.Records [] := by
  constructor
  · intro pair
    rw [pair?_empty]
    simp
  · intro entry hmem
    exact absurd hmem List.not_mem_nil

theorem ofMessage_eq_foldlM (message : Wire.Message.Ledger) :
    ofMessage message = message.liabilities.foldlM addMessage empty :=
  addMessages_eq_foldlM message.liabilities empty

end Ledger

/-! ## One message, one ledger, in any order -/

section Order

variable {amounts others : Amounts} {entries reordered : List AssetAmount}

theorem Amounts.Records.unique (h : amounts.Records entries) (hothers : others.Records entries) :
    amounts = others := by
  refine Std.ExtTreeMap.ext_getElem? fun asset => Option.ext fun value => ?_
  rw [h asset value, hothers asset value]

theorem Amounts.Records.perm (h : amounts.Records entries) (hperm : entries.Perm reordered) :
    amounts.Records reordered := by
  intro asset value
  rw [h asset value]
  simp only [hperm.mem_iff]

theorem Wire.Message.AssetAmount.Clear.perm (h : AssetAmount.Clear entries)
    (hperm : entries.Perm reordered) : AssetAmount.Clear reordered := by
  constructor
  · exact fun entry hmem => h.1 entry (hperm.mem_iff.mpr hmem)
  · refine (hperm.pairwise_iff fun hnot hrivals => hnot ?_).mp h.2
    exact ⟨hrivals.1.symm, hrivals.2.2, hrivals.2.1⟩

end Order

namespace Wire.Message.Liability

/-- The same liabilities in another order, each with its amounts in another order. -/
def Reordered (entries others : List Liability) : Prop :=
  ∃ shuffle : Liability → Liability, others.Perm (entries.map shuffle) ∧
    ∀ entry ∈ entries, (shuffle entry).pair = entry.pair ∧
      entry.pending.Perm (shuffle entry).pending ∧ entry.executed.Perm (shuffle entry).executed

variable {entries others : List Liability}

theorem Clear.reordered (h : Clear entries) (horder : Reordered entries others) :
    Clear others := by
  obtain ⟨shuffle, hperm, hsame⟩ := horder
  constructor
  · intro other hmem
    obtain ⟨entry, hentry, rfl⟩ := List.mem_map.mp (hperm.mem_iff.mp hmem)
    obtain ⟨-, hpending, hexecuted⟩ := hsame entry hentry
    exact ⟨(h.1 entry hentry).1.perm hpending, (h.1 entry hentry).2.perm hexecuted⟩
  · rw [hperm.pairwise_iff fun hne => hne.symm, List.pairwise_map]
    refine h.2.imp_of_mem fun hentry hother hne => ?_
    rwa [(hsame _ hentry).1, (hsame _ hother).1]

end Wire.Message.Liability

namespace Ledger

variable {ledger : Ledger} {entries : List Liability}

theorem Records.pair? (h : ledger.Records entries) (pair : Pair) :
    ledger.pair? pair
      = if (∃ entry ∈ entries, entry.pair = pair) then some (ledger.balances pair) else none := by
  have hknown := h.known pair
  rw [balances]
  cases hpair : ledger.pair? pair with
  | none =>
      rw [hpair] at hknown
      exact (if_neg fun h => nomatch hknown.mpr h).symm
  | some balances =>
      rw [hpair] at hknown
      exact (if_pos (hknown.mp rfl)).symm

theorem Records.unique {other : Ledger} (h : ledger.Records entries)
    (hother : other.Records entries) : ledger = other := by
  have hpairs : ledger.pairs = other.pairs := by
    refine Std.ExtTreeMap.ext_getElem? fun pair => ?_
    show ledger.pair? pair = other.pair? pair
    rw [h.pair?, hother.pair?]
    split
    · next hknown =>
        obtain ⟨entry, hmem, rfl⟩ := hknown
        obtain ⟨hpending, hexecuted⟩ := h.amounts entry hmem
        obtain ⟨hpending', hexecuted'⟩ := hother.amounts entry hmem
        exact congrArg some (congrArg₂ Balances.mk (hpending.unique hpending')
          (hexecuted.unique hexecuted'))
    · rfl
  exact congrArg Ledger.mk hpairs

theorem Records.reordered {others : List Liability} (h : ledger.Records entries)
    (horder : Liability.Reordered entries others) : ledger.Records others := by
  obtain ⟨shuffle, hperm, hsame⟩ := horder
  constructor
  · intro pair
    rw [h.known pair]
    simp only [hperm.mem_iff, List.mem_map, exists_exists_and_eq_and]
    constructor
    · rintro ⟨entry, hmem, hpair⟩
      exact ⟨entry, hmem, (hsame entry hmem).1.trans hpair⟩
    · rintro ⟨entry, hmem, hpair⟩
      exact ⟨entry, hmem, (hsame entry hmem).1.symm.trans hpair⟩
  · intro other hmem
    obtain ⟨entry, hentry, rfl⟩ := List.mem_map.mp (hperm.mem_iff.mp hmem)
    obtain ⟨hpair, hpending, hexecuted⟩ := hsame entry hentry
    rw [hpair]
    exact ⟨(h.amounts entry hentry).1.perm hpending, (h.amounts entry hentry).2.perm hexecuted⟩

/-- A message is a ledger exactly if it says nothing twice: its amounts fit into 256 bits, no pair
gets two amounts of one asset that are not zero, neither of what is pending nor of what is executed,
and no pair comes twice. The ledger has the pairs and the amounts of the message, zeros left out,
and it is that of the message in any other order as well. Otherwise it is the first entry in the
way of these conditions that is named, where of each pair the pending amounts come first, then the
executed ones, and then the pair itself. -/
theorem unambiguous_messages_are_ledgers (message : Wire.Message.Ledger) :
    ((∃ ledger, ofMessage message = .ok ledger) ↔ Liability.Clear message.liabilities) ∧
    (∀ ledger, ofMessage message = .ok ledger →
      ledger.Records message.liabilities ∧
      ∀ other : Wire.Message.Ledger,
        Liability.Reordered message.liabilities other.liabilities → ofMessage other = .ok ledger) ∧
    (∀ cause, ofMessage message = .error cause ↔
      FirstWrong Liability.Clear Liability.Wrong message.liabilities cause) := by
  simp only [ofMessage_eq_foldlM]
  refine ⟨judges_addMessage.exists_ok_iff records_empty, fun ledger hread => ?_,
    fun cause => judges_addMessage.eq_error_iff records_empty⟩
  have hrecords := judges_addMessage.records_of_ok records_empty hread
  refine ⟨hrecords, fun other horder => ?_⟩
  have hclear := (judges_addMessage.exists_ok_iff records_empty).mp ⟨ledger, hread⟩
  obtain ⟨found, hfound⟩ :=
    (judges_addMessage.exists_ok_iff records_empty).mpr (hclear.reordered horder)
  have hreordered := judges_addMessage.records_of_ok records_empty hfound
  rw [hfound, hreordered.unique (hrecords.reordered horder)]

/-- Two pairs. The amounts of the first are written short, and there is a zero among them. -/
def scattered : Wire.Message.Ledger :=
  ⟨[⟨0, 1, [⟨"ETH", [0]⟩, ⟨"USDT", [1, 0]⟩, ⟨"ETH", [7]⟩], []⟩, ⟨1, 0, [], []⟩]⟩

/-- The same two pairs, with the amounts of each asset side by side. -/
def gathered : Wire.Message.Ledger :=
  ⟨[⟨1, 0, [], []⟩, ⟨0, 1, [⟨"ETH", [7]⟩, ⟨"ETH", [0]⟩, ⟨"USDT", [1, 0]⟩], []⟩]⟩

/-- A pair that comes twice, and gets two amounts of one asset before that is noticed. -/
def spoiled : Wire.Message.Ledger :=
  ⟨[⟨0, 1, [], []⟩, ⟨0, 1, [⟨"ETH", [7]⟩], [⟨"USDT", [3]⟩, ⟨"USDT", [4]⟩]⟩]⟩

theorem unambiguous_messages_are_ledgers_gathered :
    Liability.Clear scattered.liabilities ∧
    Liability.Reordered scattered.liabilities gathered.liabilities ∧
    (∃ ledger, ofMessage scattered = .ok ledger ∧ ofMessage gathered = .ok ledger ∧
      (ledger.balances ⟨0, 1⟩).pending["USDT"]? = some 256 ∧
      (ledger.pair? ⟨1, 0⟩).isSome = true) ∧
    ofMessage spoiled = .error (.duplicateAsset "USDT") := by
  have hclear : Liability.Clear scattered.liabilities := by decide
  have horder : Liability.Reordered scattered.liabilities gathered.liabilities := by
    refine ⟨fun entry => if entry.debtor = 0 then
      { entry with pending := [⟨"ETH", [7]⟩, ⟨"ETH", [0]⟩, ⟨"USDT", [1, 0]⟩] } else entry, ?_⟩
    decide
  obtain ⟨hread, hrecords, -⟩ := unambiguous_messages_are_ledgers scattered
  obtain ⟨ledger, hledger⟩ := hread.mpr hclear
  obtain ⟨hrecords, hany⟩ := hrecords ledger hledger
  refine ⟨hclear, horder, ⟨ledger, hledger, hany gathered horder, ?_, ?_⟩, ?_⟩
  · obtain ⟨hpending, -⟩ := hrecords.amounts _ List.mem_cons_self
    exact (hpending "USDT" 256).mpr (by decide)
  · exact (hrecords.known ⟨1, 0⟩).mpr (by decide)
  · rw [(unambiguous_messages_are_ledgers spoiled).2.2]
    refine ⟨[⟨0, 1, [], []⟩], _, [], rfl, by decide, .executed (by decide) ?_⟩
    exact ⟨[⟨"USDT", [3]⟩], ⟨"USDT", [4]⟩, [], rfl, by decide,
      .again (by decide) List.mem_cons_self (by decide)⟩

end Ledger

end DebtChannel
