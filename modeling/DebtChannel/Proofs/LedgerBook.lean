import Mathlib.Algebra.GroupWithZero.Nat
import DebtChannel.Ledger.Operation
import DebtChannel.Proofs.ZeroFree

/-!
# What a ledger accounts for

A ledger is a map of maps in which entries come, go and are replaced. What its users see of it is a
`Book`: which pairs are known, and two numbers for every pair and asset. A book has the same four
operations, each in terms of these numbers. Asking for an amount adds it up to the largest amount
there is; taking from what is pending is refused if the pair is not known, if nothing is pending, or
if too little is; what is confirmed takes the place of what was confirmed before; and merging adds
number by number.

`book_step` says that a ledger without zeros does what its book does, refusals included, and
`book_run` that it does so step by step however long one goes on. It needs that no zero is kept:
otherwise nothing could be pending in an asset that has an entry, and the two would give different
reasons. From the book the sums can be read off. Without merging and as long as no amount reaches
the limit, what is pending is what was asked for less what was taken, and what is confirmed is what
was confirmed last.
-/

namespace DebtChannel

/-! ## Books -/

/-- What can be seen of a ledger. -/
@[ext] structure Book where
  /-- The pairs that have been mentioned. -/
  known : Pair → Bool
  /-- The pending amount of each asset. -/
  pending : Pair → AssetCode → Nat
  /-- The confirmed amount of each asset. -/
  executed : Pair → AssetCode → Nat

namespace Book

variable (book : Book) (pair : Pair) (asset : AssetCode) (amount : Uint256)

/-- Numbers with another number for one pair and asset. -/
def set (numbers : Pair → AssetCode → Nat) (pair : Pair) (asset : AssetCode) (value : Nat) :
    Pair → AssetCode → Nat :=
  fun other code => if other = pair ∧ code = asset then value else numbers other code

/-- The pair is known from now on, and the amount is added to what is pending, up to the largest
amount that there is. -/
def request : Book where
  known other := other == pair || book.known other
  pending := set book.pending pair asset
    (min (book.pending pair asset + amount.toNat) Uint256.max.toNat)
  executed := book.executed

/-- Why an amount cannot be taken from what is pending. -/
def refusal? : Option Ledger.Error :=
  if book.known pair = false then some (.noSuchPair pair)
  else if book.pending pair asset = 0 then some (.noPendingAmount asset)
  else if book.pending pair asset < amount.toNat then
    some (.amountExceedsPending asset amount (.ofNat 256 (book.pending pair asset)))
  else none

/-- The amount is taken from what is pending. -/
def revert : Book where
  known := book.known
  pending := set book.pending pair asset (book.pending pair asset - amount.toNat)
  executed := book.executed

/-- The amount is taken from what is pending, and is what was confirmed last. -/
def acknowledge : Book where
  known := book.known
  pending := set book.pending pair asset (book.pending pair asset - amount.toNat)
  executed := set book.executed pair asset amount.toNat

/-- All numbers of another book are added, up to the largest amount that there is. -/
def merge (more : Book) : Book where
  known pair := book.known pair || more.known pair
  pending pair asset := min (book.pending pair asset + more.pending pair asset) Uint256.max.toNat
  executed pair asset := min (book.executed pair asset + more.executed pair asset) Uint256.max.toNat

end Book

/-- What can be seen of the ledger. -/
def Ledger.book (ledger : Ledger) : Book where
  known pair := (ledger.pair? pair).isSome
  pending pair asset := (ledger.pending pair asset).toNat
  executed pair asset := (ledger.executed pair asset).toNat

namespace Book

/-- The book afterwards, which is the same book if there is a reason to refuse. -/
def unlessRefused (book after : Book) (refusal? : Option Ledger.Error) :
    Option Ledger.Error × Book :=
  (refusal?, refusal?.elim after fun _ => book)

/-- What an operation comes to: why it is refused, if it is, and the book afterwards. -/
def step (book : Book) : Ledger.Operation → Option Ledger.Error × Book
  | .request pair asset amount => (none, book.request pair asset amount)
  | .acknowledge pair asset amount =>
      book.unlessRefused (book.acknowledge pair asset amount) (book.refusal? pair asset amount)
  | .revert pair asset amount =>
      book.unlessRefused (book.revert pair asset amount) (book.refusal? pair asset amount)
  | .merge more => (none, book.merge more.book)

/-- What operations come to, one after the other. -/
def run (book : Book) : List Ledger.Operation → List (Option Ledger.Error × Book)
  | [] => []
  | operation :: rest => book.step operation :: (book.step operation).2.run rest

theorem set_self (numbers : Pair → AssetCode → Nat) (pair : Pair) (asset : AssetCode)
    (value : Nat) : set numbers pair asset value pair asset = value := if_pos ⟨rfl, rfl⟩

theorem set_other (numbers : Pair → AssetCode → Nat) {pair other : Pair} {asset code : AssetCode}
    (value : Nat) (hne : ¬ (pair = other ∧ asset = code)) :
    set numbers pair asset value other code = numbers other code :=
  if_neg fun h => hne ⟨h.1.symm, h.2.symm⟩

theorem set_sub_add {numbers : Pair → AssetCode → Nat} {pair : Pair} {asset : AssetCode}
    {amount : Nat} (hle : amount ≤ numbers pair asset) (other : Pair) (code : AssetCode) :
    set numbers pair asset (numbers pair asset - amount) other code
        + (if pair = other ∧ asset = code then amount else 0)
      = numbers other code := by
  by_cases hsame : pair = other ∧ asset = code
  · rw [if_pos hsame]
    obtain ⟨rfl, rfl⟩ := hsame
    rw [set_self, Nat.sub_add_cancel hle]
  · rw [set_other _ _ hsame, if_neg hsame, Nat.add_zero]

theorem le_pending_of_refusal? {book : Book} {pair : Pair} {asset : AssetCode} {amount : Uint256}
    (h : book.refusal? pair asset amount = none) :
    book.known pair = true ∧ amount.toNat ≤ book.pending pair asset := by
  unfold refusal? at h
  split at h
  · cases h
  · next hknown =>
      split at h
      · cases h
      · split at h
        · cases h
        · next hge => exact ⟨Bool.of_not_eq_false hknown, Nat.le_of_not_lt hge⟩

end Book

namespace Ledger

variable {ledger : Ledger}

/-! ## A ledger does what its book does -/

theorem pending_put (ledger : Ledger) (pair other : Pair) (balances : Balances)
    (asset : AssetCode) :
    (ledger.put pair balances).pending other asset
      = if other = pair then balances.pending.amount asset else ledger.pending other asset := by
  simp only [pending, Ledger.balances, pair?_put, eq_comm (a := pair)]
  split <;> rfl

theorem executed_put (ledger : Ledger) (pair other : Pair) (balances : Balances)
    (asset : AssetCode) :
    (ledger.put pair balances).executed other asset
      = if other = pair then balances.executed.amount asset else ledger.executed other asset := by
  simp only [executed, Ledger.balances, pair?_put, eq_comm (a := pair)]
  split <;> rfl

theorem book_empty : empty.book = ⟨fun _ => false, fun _ _ => 0, fun _ _ => 0⟩ := by
  ext pair asset
  · simp only [book, pair?_empty, Option.isSome_none]
  · simp only [book, pending, Ledger.balances, pair?_empty, Option.getD_none, Balances.empty,
      Amounts.amount_empty]
    rfl
  · simp only [book, executed, Ledger.balances, pair?_empty, Option.getD_none, Balances.empty,
      Amounts.amount_empty]
    rfl

theorem book_put (ledger : Ledger) (pair : Pair) (balances : Balances) :
    (ledger.put pair balances).book = {
      known := fun other => other == pair || ledger.book.known other
      pending := fun other asset =>
        if other = pair then (balances.pending.amount asset).toNat
        else ledger.book.pending other asset
      executed := fun other asset =>
        if other = pair then (balances.executed.amount asset).toNat
        else ledger.book.executed other asset } := by
  ext other asset
  · simp only [book, pair?_put, eq_comm (a := pair)]
    by_cases hsame : other = pair <;> simp [hsame]
  · simp only [book, pending_put, apply_ite BitVec.toNat]
  · simp only [book, executed_put, apply_ite BitVec.toNat]

/-- Where one amount of a pair is replaced, so is one number of the book. -/
theorem numbers_eq_set {numbers : Pair → AssetCode → Nat} {pair : Pair} {asset : AssetCode}
    {amounts : Amounts} {value : Nat} (hasset : (amounts.amount asset).toNat = value)
    (hother : ∀ code, code ≠ asset → (amounts.amount code).toNat = numbers pair code) :
    (fun other code => if other = pair then (amounts.amount code).toNat else numbers other code)
      = Book.set numbers pair asset value := by
  funext other code
  unfold Book.set
  by_cases hpair : other = pair
  · subst hpair
    by_cases hcode : code = asset
    · rw [if_pos rfl, if_pos ⟨rfl, hcode⟩, hcode, hasset]
    · rw [if_pos rfl, if_neg fun h => hcode h.2, hother code hcode]
  · rw [if_neg hpair, if_neg fun h => hpair h.1]

theorem numbers_eq_self {numbers : Pair → AssetCode → Nat} {pair : Pair} {amounts : Amounts}
    (h : ∀ code, (amounts.amount code).toNat = numbers pair code) :
    (fun other code => if other = pair then (amounts.amount code).toNat else numbers other code)
      = numbers := by
  funext other code
  split
  · next hpair => rw [hpair, h]
  · rfl

theorem book_request (ledger : Ledger) (pair : Pair) (asset : AssetCode) (amount : Uint256) :
    (ledger.request pair asset amount).book = ledger.book.request pair asset amount := by
  rw [request, book_put, Book.request]
  congr 1
  · refine numbers_eq_set ?_ fun code hcode => ?_
    · rw [Amounts.amount_add, if_pos rfl, Uint256.toNat_saturatingAdd]
      rfl
    · rw [Amounts.amount_add, if_neg (Ne.symm hcode)]
      rfl
  · exact numbers_eq_self fun code => rfl

theorem pair?_merge (ledger more : Ledger) (pair : Pair) :
    (ledger.merge more).pair? pair
      = (more.pair? pair).elim (ledger.pair? pair)
          fun balances => some ((ledger.balances pair).merge balances) := by
  have hwalk := foldl_toList Ledger.pair?
    (fun sums entry => sums.put entry.1 ((sums.balances entry.1).merge entry.2))
    (fun found balances => some ((found.getD .empty).merge balances))
    (fun sums pair balances => by rw [pair?_put, if_pos rfl]; rfl)
    (fun sums entry pair hne => by rw [pair?_put, if_neg hne]) more.pairs ledger pair
  rw [merge, hwalk]
  rfl

theorem balances_merge (ledger more : Ledger) (pair : Pair) (asset : AssetCode) :
    (ledger.merge more).pending pair asset
        = (ledger.pending pair asset).saturatingAdd (more.pending pair asset) ∧
      (ledger.merge more).executed pair asset
        = (ledger.executed pair asset).saturatingAdd (more.executed pair asset) := by
  simp only [pending, executed, balances, pair?_merge]
  cases more.pair? pair with
  | none =>
      have hnone := Uint256.saturatingAdd_zero
      simp only [Option.elim_none, Option.getD_none, Balances.empty, Amounts.amount_empty, hnone,
        and_self]
  | some added =>
      simp only [Option.elim_some, Option.getD_some, Balances.merge, Amounts.amount_merge,
        and_self]

theorem book_merge (ledger more : Ledger) :
    (ledger.merge more).book = ledger.book.merge more.book := by
  ext pair asset
  · simp only [book, Book.merge, pair?_merge]
    cases more.pair? pair with
    | none => simp only [Option.elim_none, Option.isSome_none, Bool.or_false]
    | some added => simp only [Option.elim_some, Option.isSome_some, Bool.or_true]
  · simp only [book, Book.merge, (balances_merge ledger more pair asset).1,
      Uint256.toNat_saturatingAdd]
  · simp only [book, Book.merge, (balances_merge ledger more pair asset).2,
      Uint256.toNat_saturatingAdd]

/-- A pending amount is taken unless the book says why not. -/
theorem ZeroFree.takePending_eq (h : ledger.ZeroFree) (pair : Pair) (asset : AssetCode)
    (amount : Uint256) :
    ledger.takePending pair asset amount
      = (ledger.book.refusal? pair asset amount).elim
          (.ok { ledger.balances pair with
            pending := (ledger.balances pair).pending.put asset
              (ledger.pending pair asset - amount) }) .error := by
  unfold Ledger.takePending
  cases hpair : ledger.pair? pair with
  | none =>
      have hknown : ledger.book.known pair = false := by simp [book, hpair]
      simp [Book.refusal?, hknown]
  | some found =>
      have hknown : ledger.book.known pair = true := by simp [book, hpair]
      have hfound : ledger.balances pair = found := by rw [Ledger.balances, hpair, Option.getD_some]
      have hpending : ledger.pending pair asset = found.pending.amount asset := by
        rw [pending, hfound]
      have hnat : ledger.book.pending pair asset = (found.pending.amount asset).toNat := by
        simp only [book, hpending]
      simp only [Book.refusal?, hknown, hnat, hfound, hpending, (h pair found hpair).1.getElem?,
        Bool.true_eq_false, if_false]
      -- The entry is missing exactly if the amount is zero, so both sides refuse alike.
      by_cases hzero : found.pending.amount asset = 0
      · simp [hzero]
      · have hne : (found.pending.amount asset).toNat ≠ 0 :=
          fun h => hzero (BitVec.eq_of_toNat_eq h)
        rw [if_neg hzero, if_neg hne]
        by_cases hlt : found.pending.amount asset < amount
        · have hbelow : (found.pending.amount asset).toNat < amount.toNat := hlt
          simp [hlt, hbelow]
        · have hbelow : ¬ (found.pending.amount asset).toNat < amount.toNat := hlt
          simp [hlt, hbelow]

theorem numbers_taken {pair : Pair} {asset : AssetCode} {amount : Uint256}
    (hle : amount.toNat ≤ ledger.book.pending pair asset) :
    (fun other code => if other = pair then
        (((ledger.balances pair).pending.put asset (ledger.pending pair asset - amount)).amount
          code).toNat
      else ledger.book.pending other code)
      = Book.set ledger.book.pending pair asset
          (ledger.book.pending pair asset - amount.toNat) := by
  refine numbers_eq_set ?_ fun code hcode => ?_
  · rw [Amounts.amount_put, if_pos rfl]
    exact BitVec.toNat_sub_of_le hle
  · rw [Amounts.amount_put, if_neg (Ne.symm hcode)]
    rfl

theorem numbers_confirmed (pair : Pair) (asset : AssetCode) (amount : Uint256) :
    (fun other code => if other = pair then
        (((ledger.balances pair).executed.put asset amount).amount code).toNat
      else ledger.book.executed other code)
      = Book.set ledger.book.executed pair asset amount.toNat := by
  refine numbers_eq_set ?_ fun code hcode => ?_
  · rw [Amounts.amount_put, if_pos rfl]
  · rw [Amounts.amount_put, if_neg (Ne.symm hcode)]
    rfl

theorem known_put_eq {pair : Pair} (hknown : ledger.book.known pair = true) :
    (fun other => other == pair || ledger.book.known other) = ledger.book.known := by
  funext other
  by_cases hother : other = pair
  · simp [hother, hknown]
  · simp [hother]

theorem ZeroFree.revert_eq (h : ledger.ZeroFree) (pair : Pair) (asset : AssetCode)
    (amount : Uint256) :
    (ledger.revert pair asset amount).map book
      = (ledger.book.refusal? pair asset amount).elim
          (.ok (ledger.book.revert pair asset amount)) .error := by
  unfold Ledger.revert
  rw [h.takePending_eq]
  cases hrefusal : ledger.book.refusal? pair asset amount with
  | some cause => rfl
  | none =>
      obtain ⟨hknown, hle⟩ := Book.le_pending_of_refusal? hrefusal
      simp only [Except.map, Option.elim_none, book_put, numbers_taken hle, known_put_eq hknown]
      rw [numbers_eq_self fun code => rfl]
      rfl

theorem ZeroFree.acknowledge_eq (h : ledger.ZeroFree) (pair : Pair) (asset : AssetCode)
    (amount : Uint256) :
    (ledger.acknowledge pair asset amount).map book
      = (ledger.book.refusal? pair asset amount).elim
          (.ok (ledger.book.acknowledge pair asset amount)) .error := by
  unfold Ledger.acknowledge
  rw [h.takePending_eq]
  cases hrefusal : ledger.book.refusal? pair asset amount with
  | some cause => rfl
  | none =>
      obtain ⟨hknown, hle⟩ := Book.le_pending_of_refusal? hrefusal
      simp only [Except.map, Option.elim_none, book_put, numbers_taken hle, known_put_eq hknown]
      rw [numbers_confirmed]
      rfl

theorem step_of_apply {operation : Operation} {refusal? : Option Error} {after : Book}
    (h : (ledger.apply operation).map book = refusal?.elim (.ok after) .error) :
    ((ledger.step operation).refusal?, (ledger.step operation).after.book)
      = ledger.book.unlessRefused after refusal? := by
  unfold step
  cases hresult : ledger.apply operation with
  | error cause =>
      rw [hresult] at h
      cases refusal? with
      | none => cases h
      | some found => rw [Except.error.inj h]; rfl
  | ok next =>
      rw [hresult] at h
      cases refusal? with
      | none => rw [Book.unlessRefused, Option.elim_none, ← Except.ok.inj h]
      | some found => cases h

/-- A ledger without zeros does what its book does. -/
theorem ZeroFree.book_step (h : ledger.ZeroFree) (operation : Operation) :
    ((ledger.step operation).refusal?, (ledger.step operation).after.book)
      = ledger.book.step operation := by
  cases operation with
  | request pair asset amount => rw [Book.step, ← book_request]; rfl
  | acknowledge pair asset amount => exact step_of_apply (h.acknowledge_eq pair asset amount)
  | revert pair asset amount => exact step_of_apply (h.revert_eq pair asset amount)
  | merge more => rw [Book.step, ← book_merge]; rfl

theorem ZeroFree.run :
    ∀ {operations : List Operation} {ledger : Ledger}, ledger.ZeroFree →
      ∀ step ∈ ledger.run operations, step.after.ZeroFree := by
  intro operations
  induction operations with
  | nil => intro ledger _ step hstep; exact absurd hstep List.not_mem_nil
  | cons operation operations ih =>
      intro ledger h step hstep
      rcases List.mem_cons.mp hstep with rfl | hrest
      · exact h.step operation
      · exact ih (h.step operation) step hrest

theorem ZeroFree.book_run :
    ∀ {operations : List Operation} {ledger : Ledger}, ledger.ZeroFree →
      (ledger.run operations).map (fun step => (step.refusal?, step.after.book))
        = ledger.book.run operations := by
  intro operations
  induction operations with
  | nil => intro ledger _; rfl
  | cons operation operations ih =>
      intro ledger h
      have hstep := h.book_step operation
      rw [Ledger.run, List.map_cons, ih (h.step operation), hstep, Book.run, ← hstep]

end Ledger

namespace Amounts

/-- Without zeros there are entries as soon as some amount is not zero. -/
theorem ZeroFree.isEmpty_eq_false_iff {amounts : Amounts} (h : amounts.ZeroFree) :
    amounts.isEmpty = false ↔ ∃ asset, 0 < (amounts.amount asset).toNat := by
  constructor
  · intro hsome
    obtain ⟨asset, hasset⟩ : ∃ asset, asset ∈ amounts := by
      refine Classical.byContradiction fun hnone => ?_
      refine Std.ExtTreeMap.isEmpty_eq_false_iff.mp hsome ?_
      exact Std.ExtTreeMap.eq_empty_iff_forall_not_mem.mpr fun asset hasset => hnone ⟨asset, hasset⟩
    refine ⟨asset, Nat.pos_of_ne_zero fun hzero => ?_⟩
    have hentry := h.getElem? asset
    rw [if_pos (BitVec.eq_of_toNat_eq hzero)] at hentry
    rw [Std.ExtTreeMap.mem_iff_isSome_getElem?, hentry] at hasset
    cases hasset
  · rintro ⟨asset, hpos⟩
    rw [Std.ExtTreeMap.isEmpty_eq_false_iff]
    rintro rfl
    rw [amount_empty] at hpos
    exact absurd hpos (Nat.lt_irrefl 0)

end Amounts

namespace Ledger

variable {ledger : Ledger}

theorem ZeroFree.hasPending_iff (h : ledger.ZeroFree) :
    ledger.hasPending = true ↔ ∃ pair asset, 0 < ledger.book.pending pair asset := by
  simp only [hasPending, List.any_eq_true, Bool.not_eq_true']
  constructor
  · rintro ⟨⟨pair, found⟩, hmem, hsome⟩
    have hpair : ledger.pair? pair = some found :=
      Std.ExtTreeMap.mem_toList_iff_getElem?_eq_some.mp hmem
    obtain ⟨asset, hpos⟩ := (h pair found hpair).1.isEmpty_eq_false_iff.mp hsome
    refine ⟨pair, asset, ?_⟩
    simp only [book, pending, Ledger.balances, hpair, Option.getD_some]
    exact hpos
  · rintro ⟨pair, asset, hpos⟩
    cases hpair : ledger.pair? pair with
    | none =>
        simp only [book, pending, Ledger.balances, hpair, Option.getD_none, Balances.empty,
          Amounts.amount_empty] at hpos
        exact absurd hpos (Nat.lt_irrefl 0)
    | some found =>
        simp only [book, pending, Ledger.balances, hpair, Option.getD_some] at hpos
        refine ⟨(pair, found), Std.ExtTreeMap.mem_toList_iff_getElem?_eq_some.mpr hpair, ?_⟩
        exact (h pair found hpair).1.isEmpty_eq_false_iff.mpr ⟨asset, hpos⟩

/-! ## Sums -/

/-- What an operation asks for in an asset of a pair. -/
def Operation.requested (pair : Pair) (asset : AssetCode) : Operation → Nat
  | .request other code amount => if other = pair ∧ code = asset then amount.toNat else 0
  | _ => 0

/-- What a step took from what was pending in an asset of a pair. -/
def Step.taken (pair : Pair) (asset : AssetCode) (step : Step) : Nat :=
  match step.refusal?, step.operation with
  | none, .acknowledge other code amount | none, .revert other code amount =>
      if other = pair ∧ code = asset then amount.toNat else 0
  | _, _ => 0

/-- What a step confirmed in an asset of a pair, if it did. -/
def Step.confirmed? (pair : Pair) (asset : AssetCode) (step : Step) : Option Nat :=
  match step.refusal?, step.operation with
  | none, .acknowledge other code amount =>
      if other = pair ∧ code = asset then some amount.toNat else none
  | _, _ => none

/-- Whether the step adds up to more than the largest amount that there is. -/
def Step.isCapped (step : Step) : Bool :=
  match step.operation with
  | .request pair asset amount =>
      Uint256.max.toNat < (step.before.pending pair asset).toNat + amount.toNat
  | _ => false

theorem step_operation (ledger : Ledger) (operation : Operation) :
    (ledger.step operation).operation = operation := by
  unfold step
  split <;> rfl

theorem ZeroFree.step_sums (h : ledger.ZeroFree) {operation : Operation}
    (hmerge : ∀ more, operation ≠ .merge more) (hcapped : (ledger.step operation).isCapped = false)
    (pair : Pair) (asset : AssetCode) :
    (ledger.step operation).after.book.pending pair asset
          + (ledger.step operation).taken pair asset
        = ledger.book.pending pair asset + operation.requested pair asset ∧
      (ledger.step operation).after.book.executed pair asset
        = ((ledger.step operation).confirmed? pair asset).getD
            (ledger.book.executed pair asset) := by
  -- From here on it is a question of the book alone.
  obtain ⟨hrefusal, hafter⟩ := Prod.mk.inj (h.book_step operation)
  rw [hafter]
  simp only [Step.taken, Step.confirmed?, hrefusal, step_operation]
  cases operation with
  | merge more => exact absurd rfl (hmerge more)
  | request other code amount =>
      have hfits : ledger.book.pending other code + amount.toNat ≤ Uint256.max.toNat :=
        Nat.le_of_not_lt (of_decide_eq_false hcapped)
      simp only [Book.request, Operation.requested, Nat.min_eq_left hfits]
      by_cases hsame : other = pair ∧ code = asset
      · obtain ⟨rfl, rfl⟩ := hsame
        rw [Book.set_self, if_pos ⟨rfl, rfl⟩]
        exact ⟨rfl, rfl⟩
      · rw [Book.set_other _ _ hsame, if_neg hsame]
        exact ⟨rfl, rfl⟩
  | acknowledge other code amount =>
      simp only [Book.unlessRefused, Operation.requested]
      cases hrefused : ledger.book.refusal? other code amount with
      | some cause => exact ⟨rfl, rfl⟩
      | none =>
          obtain ⟨-, hle⟩ := Book.le_pending_of_refusal? hrefused
          refine ⟨Book.set_sub_add hle pair asset, ?_⟩
          show Book.set ledger.book.executed other code amount.toNat pair asset
            = (if other = pair ∧ code = asset then some amount.toNat else none).getD
                (ledger.book.executed pair asset)
          by_cases hsame : other = pair ∧ code = asset
          · rw [if_pos hsame]
            obtain ⟨rfl, rfl⟩ := hsame
            rw [Book.set_self, Option.getD_some]
          · rw [if_neg hsame, Book.set_other _ _ hsame, Option.getD_none]
  | revert other code amount =>
      simp only [Book.unlessRefused, Operation.requested]
      cases hrefused : ledger.book.refusal? other code amount with
      | some cause => exact ⟨rfl, rfl⟩
      | none =>
          obtain ⟨-, hle⟩ := Book.le_pending_of_refusal? hrefused
          exact ⟨Book.set_sub_add hle pair asset, rfl⟩

/-- Without mergers and caps, what is pending at the end and what was taken on the way are what was
pending at the beginning and what was asked for, and what is confirmed is what was confirmed last. -/
theorem ZeroFree.run_sums (pair : Pair) (asset : AssetCode) :
    ∀ {operations : List Operation} {ledger : Ledger}, ledger.ZeroFree →
      (∀ more, .merge more ∉ operations) → (∀ step ∈ ledger.run operations, step.isCapped = false) →
      (ledger.afterAll (ledger.run operations)).book.pending pair asset
            + ((ledger.run operations).map (Step.taken pair asset)).sum
          = ledger.book.pending pair asset
            + (operations.map (Operation.requested pair asset)).sum ∧
        (ledger.afterAll (ledger.run operations)).book.executed pair asset
          = ((ledger.run operations).filterMap (Step.confirmed? pair asset)).getLast?.getD
              (ledger.book.executed pair asset) := by
  intro operations
  induction operations with
  | nil => intro ledger _ _ _; exact ⟨rfl, rfl⟩
  | cons operation operations ih =>
      intro ledger h hmerge hcapped
      obtain ⟨hpending, hexecuted⟩ := h.step_sums
        (fun more hmore => hmerge more (hmore ▸ List.mem_cons_self))
        (hcapped _ List.mem_cons_self) pair asset
      obtain ⟨hpendingRest, hexecutedRest⟩ := ih (h.step operation)
        (fun more hmore => hmerge more (List.mem_cons_of_mem _ hmore))
        (fun step hstep => hcapped step (List.mem_cons_of_mem _ hstep))
      refine ⟨?_, ?_⟩
      · simp only [Ledger.run, afterAll, List.map_cons, List.sum_cons]
        omega
      · simp only [Ledger.run, afterAll, hexecutedRest, hexecuted, List.filterMap_cons]
        cases (ledger.step operation).confirmed? pair asset with
        | none => rfl
        | some amount => rw [List.getLast?_cons]; rfl

theorem after_eq_before_of_refused {operations : List Operation} {ledger : Ledger} {step : Step}
    (h : step ∈ ledger.run operations) (hrefused : step.refusal? ≠ none) :
    step.after = step.before := by
  induction operations generalizing ledger with
  | nil => exact absurd h List.not_mem_nil
  | cons operation operations ih =>
      rcases List.mem_cons.mp h with rfl | hrest
      · unfold Ledger.step at hrefused ⊢
        split at hrefused
        · exact absurd rfl hrefused
        · rfl
      · exact ih hrest

/-- Whatever is done with a ledger that began empty or was read from bytes, no zero is kept, it says
of itself that something is pending exactly if some amount is, every step does what the book says,
and a step that is refused changes nothing. If it began empty, nothing was merged in and no amount
was cut off at the limit, then what is pending is what was asked for less what was taken, and what
is confirmed is what was confirmed last. -/
theorem run_follows_book {start : Ledger}
    (hstart : start = .empty ∨ ∃ bytes, decode bytes = .ok start) (operations : List Operation) :
    (∀ ledger ∈ start :: (start.run operations).map Step.after,
        ledger.ZeroFree ∧
          (ledger.hasPending = true ↔ ∃ pair asset, 0 < ledger.book.pending pair asset)) ∧
      (start.run operations).map (fun step => (step.refusal?, step.after.book))
        = start.book.run operations ∧
      (∀ step ∈ start.run operations, step.refusal? ≠ none → step.after = step.before) ∧
      (start = .empty → (∀ more, .merge more ∉ operations) →
        (∀ step ∈ start.run operations, step.isCapped = false) →
        ∀ pair asset,
          (start.afterAll (start.run operations)).book.pending pair asset
                + ((start.run operations).map (Step.taken pair asset)).sum
              = (operations.map (Operation.requested pair asset)).sum ∧
            (start.afterAll (start.run operations)).book.executed pair asset
              = ((start.run operations).filterMap
                  (Step.confirmed? pair asset)).getLast?.getD 0) := by
  have hfree : start.ZeroFree := by
    rcases hstart with rfl | ⟨bytes, hdecode⟩
    · exact zeroFree_empty
    · exact zeroFree_decode hdecode
  refine ⟨?_, hfree.book_run, fun step hstep => after_eq_before_of_refused hstep, ?_⟩
  · intro ledger hledger
    have hzero : ledger.ZeroFree := by
      rcases List.mem_cons.mp hledger with rfl | hafter
      · exact hfree
      · obtain ⟨step, hstep, rfl⟩ := List.mem_map.mp hafter
        exact hfree.run step hstep
    exact ⟨hzero, hzero.hasPending_iff⟩
  · rintro rfl hmerge hcapped pair asset
    obtain ⟨hpending, hexecuted⟩ := hfree.run_sums pair asset hmerge hcapped
    have hnone : empty.book.pending pair asset = 0 ∧ empty.book.executed pair asset = 0 := by
      rw [book_empty]
      exact ⟨rfl, rfl⟩
    rw [hnone.1, Nat.zero_add] at hpending
    rw [hnone.2] at hexecuted
    exact ⟨hpending, hexecuted⟩

/-- Five are asked for, twice too much is taken, and two are confirmed and three withdrawn. -/
def fivePaidOff : List Operation :=
  [.revert ⟨1, 0⟩ "ETH" 1, .request ⟨1, 0⟩ "ETH" 5, .acknowledge ⟨1, 0⟩ "ETH" 9,
    .acknowledge ⟨1, 0⟩ "ETH" 2, .revert ⟨1, 0⟩ "ETH" 3, .revert ⟨1, 0⟩ "ETH" 1]

theorem fivePaidOff_follows_book :
    (empty.run fivePaidOff).map (fun step => (step.refusal?, step.after.book))
        = empty.book.run fivePaidOff ∧
      (empty.run fivePaidOff).map Step.refusal?
        = [some (.noSuchPair ⟨1, 0⟩), none, some (.amountExceedsPending "ETH" 9 5), none, none,
          some (.noPendingAmount "ETH")] ∧
      (∀ more, .merge more ∉ fivePaidOff) ∧
      (∀ step ∈ empty.run fivePaidOff, step.isCapped = false) ∧
      (empty.afterAll (empty.run fivePaidOff)).book.pending ⟨1, 0⟩ "ETH" + (2 + 3) = 5 ∧
      (empty.afterAll (empty.run fivePaidOff)).book.executed ⟨1, 0⟩ "ETH" = 2 := by
  have hmerge : ∀ more, .merge more ∉ fivePaidOff := by
    intro more hmem
    simp [fivePaidOff] at hmem
  have hcapped : ∀ step ∈ empty.run fivePaidOff, step.isCapped = false := by
    have hall : (empty.run fivePaidOff).all (fun step => !step.isCapped) = true := by
      decide +kernel
    intro step hstep
    have hnot := List.all_eq_true.mp hall step hstep
    rwa [Bool.not_eq_true'] at hnot
  obtain ⟨-, htrace, -, hsums⟩ := run_follows_book (.inl rfl) fivePaidOff
  obtain ⟨hpending, hexecuted⟩ := hsums rfl hmerge hcapped ⟨1, 0⟩ "ETH"
  exact ⟨htrace, by decide +kernel, hmerge, hcapped, hpending, hexecuted⟩

end Ledger

end DebtChannel
