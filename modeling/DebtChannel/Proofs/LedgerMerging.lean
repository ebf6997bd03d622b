import DebtChannel.Proofs.LedgerContents

/-!
# Requests and ledgers in any order

Merging walks over one ledger and adds its entries to the other, so the two do not play the same
part in it, and an amount that reaches the limit is cut off on the way. Neither shows in the result.
What merging does to the books is addition up to a limit, number by number, and there it does not
matter which number comes first, nor at which of the sums the limit was reached: a sum that was cut
off is cut off in the end. Ledgers that one can come by are equal when their books are, so all this
is true of the ledgers too.

A request is a merge with a small ledger, the one that the request makes of the empty ledger. Hence
all that adds to a ledger is merging. A `Gathering` is any way to come from requests and ledgers to
one ledger, with the grouping that its tree says; its total is what running its parts one after the
other makes of the empty ledger, and the parts can be run in any order.

The walk itself would not be a good place to prove this. Two walks that end with the same entries
come to them by different sums, and the induction would have to follow both.
-/

namespace DebtChannel

/-! ## Books -/

namespace Book

/-- It does not matter which of two sums reaches the limit first. -/
theorem min_add_assoc (a b c limit : Nat) :
    min (min (a + b) limit + c) limit = min (a + min (b + c) limit) limit := by
  omega

theorem merge_comm (book more : Book) : book.merge more = more.merge book := by
  ext pair asset
  · exact Bool.or_comm _ _
  · exact congrArg (min · _) (Nat.add_comm _ _)
  · exact congrArg (min · _) (Nat.add_comm _ _)

theorem merge_assoc (a b c : Book) : (a.merge b).merge c = a.merge (b.merge c) := by
  ext pair asset
  · exact Bool.or_assoc _ _ _
  · exact min_add_assoc _ _ _ _
  · exact min_add_assoc _ _ _ _

end Book

/-! ## Ledgers -/

namespace Ledger

variable {ledger : Ledger}

theorem ZeroFree.merge_comm {more : Ledger} (h : ledger.ZeroFree) (hmore : more.ZeroFree) :
    ledger.merge more = more.merge ledger := by
  refine (h.merge more).eq_of_book_eq (hmore.merge ledger) ?_
  rw [book_merge, book_merge, Book.merge_comm]

/-- Only the ledger that all is added to has to be free of zeros. -/
theorem ZeroFree.merge_assoc (h : ledger.ZeroFree) (more further : Ledger) :
    (ledger.merge more).merge further = ledger.merge (more.merge further) := by
  refine ((h.merge more).merge further).eq_of_book_eq (h.merge _) ?_
  rw [book_merge, book_merge, book_merge, book_merge, Book.merge_assoc]

theorem merge_empty (ledger : Ledger) : ledger.merge .empty = ledger := rfl

theorem ZeroFree.empty_merge (h : ledger.ZeroFree) : empty.merge ledger = ledger := by
  rw [zeroFree_empty.merge_comm h, merge_empty]

theorem ZeroFree.request_eq_merge (h : ledger.ZeroFree) (pair : Pair) (asset : AssetCode)
    (amount : Uint256) :
    ledger.request pair asset amount = ledger.merge (empty.request pair asset amount) := by
  have hamount := amount.toNat_le_max
  refine (h.request pair asset amount).eq_of_book_eq (h.merge _) ?_
  rw [book_merge, book_request, book_request, book_empty]
  ext other code
  · show (other == pair || ledger.book.known other)
        = (ledger.book.known other || (other == pair || false))
    rw [Bool.or_false, Bool.or_comm]
  · have hle : ledger.book.pending other code ≤ Uint256.max.toNat := Uint256.toNat_le_max _
    simp only [Book.request, Book.merge, Book.set]
    split
    · next hsame =>
        obtain ⟨rfl, rfl⟩ := hsame
        omega
    · omega
  · have hle : ledger.book.executed other code ≤ Uint256.max.toNat := Uint256.toNat_le_max _
    simp only [Book.request, Book.merge]
    omega

/-! ## Operations that add -/

/-- The operation adds to a ledger: it is a request, or a ledger without zeros is merged in. -/
def Operation.Adds : Operation → Prop
  | .request _ _ _ => True
  | .merge more => more.ZeroFree
  | _ => False

theorem ZeroFree.step_of_adds (h : ledger.ZeroFree) {operation : Operation}
    (hadds : operation.Adds) :
    (ledger.step operation).after = ledger.merge (empty.step operation).after := by
  cases operation with
  | request pair asset amount => exact h.request_eq_merge pair asset amount
  | merge more =>
      show ledger.merge more = ledger.merge (empty.merge more)
      rw [ZeroFree.empty_merge hadds]
  | acknowledge pair asset amount => cases hadds
  | revert pair asset amount => cases hadds

theorem afterRun_append (first second : List Operation) (ledger : Ledger) :
    ledger.afterRun (first ++ second) = (ledger.afterRun first).afterRun second := by
  induction first generalizing ledger with
  | nil => rfl
  | cons operation first ih =>
      rw [List.cons_append, afterRun_cons, afterRun_cons, ih]

theorem ZeroFree.afterRun {operations : List Operation} (h : ledger.ZeroFree) :
    (ledger.afterRun operations).ZeroFree := by
  induction operations generalizing ledger with
  | nil => exact h
  | cons operation operations ih => exact ih (h.step operation)

/-- What adds to a ledger one by one can be put together first and merged in then. -/
theorem ZeroFree.afterRun_eq_merge {operations : List Operation} (h : ledger.ZeroFree)
    (hadds : ∀ operation ∈ operations, operation.Adds) :
    ledger.afterRun operations = ledger.merge (empty.afterRun operations) := by
  induction operations generalizing ledger with
  | nil => exact (merge_empty ledger).symm
  | cons operation operations ih =>
      obtain ⟨hfirst, hrest⟩ := List.forall_mem_cons.mp hadds
      have hmade : (empty.step operation).after.ZeroFree := zeroFree_empty.step operation
      calc ledger.afterRun (operation :: operations)
          = (ledger.step operation).after.merge (empty.afterRun operations) :=
            ih (h.step operation) hrest
        _ = (ledger.merge (empty.step operation).after).merge (empty.afterRun operations) := by
            rw [h.step_of_adds hfirst]
        _ = ledger.merge ((empty.step operation).after.merge (empty.afterRun operations)) :=
            h.merge_assoc _ _
        _ = ledger.merge (empty.afterRun (operation :: operations)) := by
            rw [afterRun_cons, ih hmade hrest]

theorem ZeroFree.afterRun_perm {first second : List Operation} (hperm : first.Perm second)
    (hadds : ∀ operation ∈ first, operation.Adds) (h : ledger.ZeroFree) :
    ledger.afterRun first = ledger.afterRun second := by
  induction hperm generalizing ledger with
  | nil => rfl
  | cons operation _ ih =>
      obtain ⟨-, hrest⟩ := List.forall_mem_cons.mp hadds
      exact ih hrest (h.step operation)
  | swap a b rest =>
      obtain ⟨hb, hrest⟩ := List.forall_mem_cons.mp hadds
      obtain ⟨ha, -⟩ := List.forall_mem_cons.mp hrest
      have hzeroA : (empty.step a).after.ZeroFree := zeroFree_empty.step a
      have hzeroB : (empty.step b).after.ZeroFree := zeroFree_empty.step b
      rw [afterRun_cons, afterRun_cons, afterRun_cons, afterRun_cons,
        (h.step b).step_of_adds ha, (h.step a).step_of_adds hb, h.step_of_adds hb,
        h.step_of_adds ha, h.merge_assoc, h.merge_assoc, hzeroA.merge_comm hzeroB]
  | trans hfirst _ ih ih' =>
      rw [ih hadds h, ih' (fun operation hmem => hadds operation (hfirst.mem_iff.mpr hmem)) h]

/-! ## Any grouping -/

/-- A way to come to a ledger from requests and other ledgers. -/
inductive Gathering where
  /-- Begin with nothing. -/
  | nothing
  /-- Begin with a ledger. -/
  | given (ledger : Ledger)
  /-- Ask for an amount in what has been gathered. -/
  | request (gathered : Gathering) (pair : Pair) (asset : AssetCode) (amount : Uint256)
  /-- Merge what has been gathered in two places. -/
  | merge (left right : Gathering)

namespace Gathering

/-- The ledger that one comes to. -/
def total : Gathering → Ledger
  | nothing => .empty
  | given ledger => ledger
  | request gathered pair asset amount => gathered.total.request pair asset amount
  | merge left right => left.total.merge right.total

/-- The requests and the ledgers that go into it. -/
def parts : Gathering → List Operation
  | nothing => []
  | given ledger => [.merge ledger]
  | request gathered pair asset amount => gathered.parts ++ [.request pair asset amount]
  | merge left right => left.parts ++ right.parts

theorem adds_of_mem_parts :
    ∀ {gathering : Gathering},
      (∀ ledger, .merge ledger ∈ gathering.parts → Ledger.ZeroFree ledger) →
      ∀ part ∈ gathering.parts, part.Adds := by
  intro gathering
  induction gathering with
  | nothing => intro _ part hpart; exact absurd hpart List.not_mem_nil
  | given ledger =>
      intro h part hpart
      obtain rfl := List.mem_singleton.mp hpart
      exact h ledger hpart
  | request gathered pair asset amount ih =>
      intro h part hpart
      rcases List.mem_append.mp hpart with hgathered | hlast
      · exact ih (fun ledger hmem => h ledger (List.mem_append_left _ hmem)) part hgathered
      · obtain rfl := List.mem_singleton.mp hlast
        exact trivial
  | merge left right ihLeft ihRight =>
      intro h part hpart
      rcases List.mem_append.mp hpart with hleft | hright
      · exact ihLeft (fun ledger hmem => h ledger (List.mem_append_left _ hmem)) part hleft
      · exact ihRight (fun ledger hmem => h ledger (List.mem_append_right _ hmem)) part hright

/-- The grouping does not matter: one might as well have run the parts one after the other. -/
theorem total_eq_afterRun :
    ∀ {gathering : Gathering}, (∀ part ∈ gathering.parts, part.Adds) →
      gathering.total = empty.afterRun gathering.parts := by
  intro gathering
  induction gathering with
  | nothing => intro _; rfl
  | given ledger =>
      intro h
      have hfree : ledger.ZeroFree := h (.merge ledger) List.mem_cons_self
      exact hfree.empty_merge.symm
  | request gathered pair asset amount ih =>
      intro h
      rw [parts, afterRun_append, ← ih (fun part hpart => h part (List.mem_append_left _ hpart))]
      rfl
  | merge left right ihLeft ihRight =>
      intro h
      have hright : ∀ part ∈ right.parts, part.Adds :=
        fun part hpart => h part (List.mem_append_right _ hpart)
      have hleft := ihLeft fun part hpart => h part (List.mem_append_left _ hpart)
      have hfree : left.total.ZeroFree := by
        rw [hleft]
        exact zeroFree_empty.afterRun
      rw [parts, afterRun_append, ← hleft, hfree.afterRun_eq_merge hright, ← ihRight hright]
      rfl

end Gathering

/-- Merging adds the amounts of every pair and asset, up to the largest amount that there is, and
knows the pairs of both. Among the ledgers that one can come by it is commutative and associative,
the empty ledger adds nothing on either side, and a request adds the ledger that it makes of the
empty one. So requests and ledgers that are gathered come to the same ledger in any order and with
any grouping. -/
theorem merging_is_order_independent :
    (∀ (ledger more : Ledger) (pair : Pair) (asset : AssetCode),
      ((ledger.merge more).pair? pair).isSome
          = ((ledger.pair? pair).isSome || (more.pair? pair).isSome) ∧
        ((ledger.merge more).pending pair asset).toNat
          = min ((ledger.pending pair asset).toNat + (more.pending pair asset).toNat)
              Uint256.max.toNat ∧
        ((ledger.merge more).executed pair asset).toNat
          = min ((ledger.executed pair asset).toNat + (more.executed pair asset).toNat)
              Uint256.max.toNat) ∧
    (∀ a b : Ledger, Obtainable a → Obtainable b → a.merge b = b.merge a) ∧
    (∀ a b c : Ledger, Obtainable a → Obtainable b → Obtainable c →
      (a.merge b).merge c = a.merge (b.merge c)) ∧
    (∀ ledger : Ledger, Obtainable ledger →
      ledger.merge .empty = ledger ∧ empty.merge ledger = ledger ∧
      ∀ (pair : Pair) (asset : AssetCode) (amount : Uint256),
        ledger.request pair asset amount = ledger.merge (empty.request pair asset amount)) ∧
    (∀ first second : Gathering,
      (∀ ledger, .merge ledger ∈ first.parts → Obtainable ledger) →
      first.parts.Perm second.parts → first.total = second.total) := by
  refine ⟨fun ledger more pair asset => ?_, fun a b ha hb => ha.zeroFree.merge_comm hb.zeroFree,
    fun a b c ha _ _ => ha.zeroFree.merge_assoc b c, fun ledger h => ?_,
    fun first second hparts hperm => ?_⟩
  · have hbook := book_merge ledger more
    exact ⟨congrFun (congrArg Book.known hbook) pair,
      congrFun (congrFun (congrArg Book.pending hbook) pair) asset,
      congrFun (congrFun (congrArg Book.executed hbook) pair) asset⟩
  · exact ⟨merge_empty ledger, h.zeroFree.empty_merge, h.zeroFree.request_eq_merge⟩
  · have hfirst : ∀ part ∈ first.parts, part.Adds :=
      Gathering.adds_of_mem_parts fun ledger hmem => (hparts ledger hmem).zeroFree
    have hsecond : ∀ part ∈ second.parts, part.Adds :=
      fun part hpart => hfirst part (hperm.mem_iff.mpr hpart)
    rw [Gathering.total_eq_afterRun hfirst, Gathering.total_eq_afterRun hsecond,
      zeroFree_empty.afterRun_perm hperm hfirst]

/-- As much is asked for as there can be. -/
def atLimit : Ledger := empty.request ⟨1, 0⟩ "ETH" Uint256.max

/-- More is asked for, which is cut off, and something else. -/
def beyondLimit : Gathering :=
  ((Gathering.given atLimit).request ⟨1, 0⟩ "ETH" 5).request ⟨0, 1⟩ "USD" 7

/-- All this is gathered the other way round and in three places. -/
def upToLimit : Gathering :=
  .merge (.request .nothing ⟨0, 1⟩ "USD" 7)
    (.merge (.request .nothing ⟨1, 0⟩ "ETH" 5) (.given atLimit))

theorem total_beyondLimit_eq_upToLimit :
    Obtainable atLimit ∧ beyondLimit.parts.Perm upToLimit.parts ∧
    atLimit.merge upToLimit.total = upToLimit.total.merge atLimit ∧
    beyondLimit.total = upToLimit.total ∧
    beyondLimit.total.pending ⟨1, 0⟩ "ETH" = Uint256.max := by
  obtain ⟨-, hcomm, -, -, hgathered⟩ := merging_is_order_independent
  have hlimit : Obtainable atLimit :=
    @Obtainable.apply _ _ (.request ⟨1, 0⟩ "ETH" Uint256.max) .empty rfl
  have hasked : Obtainable (empty.request ⟨0, 1⟩ "USD" 7) :=
    @Obtainable.apply _ _ (.request ⟨0, 1⟩ "USD" 7) .empty rfl
  have htotal : Obtainable upToLimit.total := @Obtainable.apply _ _ (.merge _) hasked rfl
  have hparts : ∀ ledger, .merge ledger ∈ beyondLimit.parts → Obtainable ledger := by
    intro ledger hmem
    simp only [beyondLimit, Gathering.parts, List.cons_append, List.nil_append, List.mem_cons,
      Operation.merge.injEq, reduceCtorEq, List.not_mem_nil, or_false] at hmem
    rw [hmem]
    exact hlimit
  have hperm : beyondLimit.parts.Perm upToLimit.parts := (List.reverse_perm _).symm
  exact ⟨hlimit, hperm, hcomm _ _ hlimit htotal, hgathered _ _ hparts hperm, by decide +kernel⟩

end Ledger

end DebtChannel
