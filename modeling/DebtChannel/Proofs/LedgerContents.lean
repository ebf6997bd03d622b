import DebtChannel.Proofs.DraftCodec
import DebtChannel.Proofs.LedgerBook
import DebtChannel.State.Hash

/-!
# The balances are all there is to a ledger

Two participants come to the same balances on different ways. One asks for an amount at once, the
other for parts of it; one reads a ledger, the other puts it together. What they sign is the hash of
a state, and a single byte of the ledger in it that told of the way would give them two hashes.

No byte does. Maps are equal when they hold the same entries, so the order in which the entries
came is not seen, neither in the map nor in the bytes. What remains is an entry that is there and
says nothing, an amount of zero; the ledgers that one can come by are free of these (`ZeroFree`).
There an entry is its amount, and a ledger is its book (`ZeroFree.eq_of_book_eq`). A pair without
balances is an entry that does say something, and the book has it.

The way back from the bytes is reading them. It is limited to the length that a message can have,
which the length of the bytes is below.
-/

namespace DebtChannel

/-! ## Nothing but amounts -/

theorem Amounts.ZeroFree.eq_of_amount_eq {first second : Amounts} (hfirst : first.ZeroFree)
    (hsecond : second.ZeroFree) (h : ∀ asset, first.amount asset = second.amount asset) :
    first = second := by
  refine Std.ExtTreeMap.ext_getElem? fun asset => ?_
  rw [hfirst.getElem?, hsecond.getElem?, h asset]

/-- What is asked for in two parts is asked for at once. -/
theorem Book.request_request (book : Book) (pair : Pair) (asset : AssetCode)
    (amount more : Uint256) :
    (book.request pair asset amount).request pair asset more
      = book.request pair asset (amount.saturatingAdd more) := by
  ext other code
  · simp only [request, Bool.or_self_left]
  · simp only [request, set, and_self, if_true, Uint256.toNat_saturatingAdd]
    split
    · omega
    · rfl
  · rfl

namespace Ledger

variable {first second : Ledger}

theorem amount_eq_of_book_eq (h : first.book = second.book) (pair : Pair) (asset : AssetCode) :
    (first.balances pair).pending.amount asset = (second.balances pair).pending.amount asset ∧
      (first.balances pair).executed.amount asset
        = (second.balances pair).executed.amount asset := by
  have hpending : first.book.pending pair asset = second.book.pending pair asset := by rw [h]
  have hexecuted : first.book.executed pair asset = second.book.executed pair asset := by rw [h]
  exact ⟨BitVec.eq_of_toNat_eq hpending, BitVec.eq_of_toNat_eq hexecuted⟩

theorem balances_eq_of_book_eq (hfirst : first.ZeroFree) (hsecond : second.ZeroFree)
    (h : first.book = second.book) (pair : Pair) : first.balances pair = second.balances pair := by
  obtain ⟨hpending, hexecuted⟩ := hfirst.balances pair
  obtain ⟨hpending', hexecuted'⟩ := hsecond.balances pair
  have hamount := amount_eq_of_book_eq h pair
  have hpendingEq : (first.balances pair).pending = (second.balances pair).pending :=
    hpending.eq_of_amount_eq hpending' fun asset => (hamount asset).1
  have hexecutedEq : (first.balances pair).executed = (second.balances pair).executed :=
    hexecuted.eq_of_amount_eq hexecuted' fun asset => (hamount asset).2
  exact congrArg₂ Balances.mk hpendingEq hexecutedEq

theorem pair?_eq_ite (ledger : Ledger) (pair : Pair) :
    ledger.pair? pair = if ledger.book.known pair then some (ledger.balances pair) else none := by
  show _ = if (ledger.pair? pair).isSome then some (ledger.balances pair) else none
  unfold balances
  cases ledger.pair? pair with
  | none => rfl
  | some balances => rfl

theorem ZeroFree.eq_of_book_eq (hfirst : first.ZeroFree) (hsecond : second.ZeroFree)
    (h : first.book = second.book) : first = second := by
  have hpairs : first.pairs = second.pairs := by
    refine Std.ExtTreeMap.ext_getElem? fun pair => ?_
    show first.pair? pair = second.pair? pair
    rw [pair?_eq_ite, pair?_eq_ite, h, balances_eq_of_book_eq hfirst hsecond h]
  exact congrArg Ledger.mk hpairs

/-- The ledger after operations, one after the other. -/
def afterRun (ledger : Ledger) (operations : List Operation) : Ledger :=
  ledger.afterAll (ledger.run operations)

theorem afterRun_cons (ledger : Ledger) (operation : Operation) (operations : List Operation) :
    ledger.afterRun (operation :: operations)
      = (ledger.step operation).after.afterRun operations := rfl

/-- Operations lead from ledgers that one can come by to such ledgers, also if some are refused. -/
theorem Obtainable.afterRun {ledger : Ledger} (h : Obtainable ledger)
    (operations : List Operation) : Obtainable (ledger.afterRun operations) := by
  induction operations generalizing ledger with
  | nil => exact h
  | cons operation operations ih =>
      rw [afterRun_cons]
      refine ih ?_
      unfold step
      split
      · next hok => exact h.apply hok
      · exact h

end Ledger

/-! ## Drafts -/

namespace Draft

theorem Obtainable.zeroFree {draft : Draft} (h : Obtainable draft) : draft.ledger.ZeroFree :=
  h.readable.zeroFree

theorem state_approveLiabilities (draft : Draft) (appData : Bytes) :
    draft.approveLiabilities.state
      = { ({ draft.state with appData } : State) with appData := draft.ledger.encode } := rfl

end Draft

namespace Ledger

/-- The balances of a ledger determine its bytes and its bytes determine its balances, whatever was
done to come by it. Two ledgers that know the same pairs and have the same amounts are equal and
have the same bytes. Two drafts with such ledgers that are otherwise equal are equal once they are
approved, with one data and one hash. And two ledgers with the same bytes know the same pairs and
have the same amounts. -/
theorem contents_determine_bytes :
    (∀ first second : Ledger, Obtainable first → Obtainable second → first.book = second.book →
      first = second ∧ first.encode = second.encode) ∧
    (∀ first second : Draft, first.Obtainable → second.Obtainable →
      first.ledger.book = second.ledger.book →
      ({ first.state with appData := [] } : State) = { second.state with appData := [] } →
      first.approveLiabilities = second.approveLiabilities ∧
      first.approveLiabilities.state.appData = second.approveLiabilities.state.appData ∧
      first.approveLiabilities.state.hash = second.approveLiabilities.state.hash) ∧
    (∀ first second : Ledger, Obtainable first → Obtainable second →
      first.encode = second.encode → first.encode.length < UInt64.size →
      first.book = second.book) := by
  refine ⟨fun first second hfirst hsecond hbook => ?_,
    fun first second hfirst hsecond hbook hstate => ?_,
    fun first second hfirst hsecond hbytes hsize => ?_⟩
  · have heq : first = second := hfirst.zeroFree.eq_of_book_eq hsecond.zeroFree hbook
    exact ⟨heq, congrArg encode heq⟩
  · have hledger : first.ledger = second.ledger :=
      hfirst.zeroFree.eq_of_book_eq hsecond.zeroFree hbook
    have hstates : first.approveLiabilities.state = second.approveLiabilities.state := by
      rw [first.state_approveLiabilities [], second.state_approveLiabilities [], hstate, hledger]
    exact ⟨congrArg₂ Draft.mk hstates hledger, congrArg State.appData hstates,
      congrArg State.hash hstates⟩
  · have hread := hfirst.zeroFree.decode_encode hsize
    rw [hbytes] at hsize hread
    rw [Except.ok.inj (hread.symm.trans (hsecond.zeroFree.decode_encode hsize))]

/-- Seven are asked for in two parts, and between these too much is confirmed. -/
def sevenInParts : Ledger :=
  empty.afterRun [.request ⟨1, 0⟩ "ETH" 3, .acknowledge ⟨1, 0⟩ "ETH" 9, .request ⟨1, 0⟩ "ETH" 4]

/-- Seven are asked for at once, in a ledger that is merged in. -/
def sevenAtOnce : Ledger := empty.afterRun [.merge (empty.request ⟨1, 0⟩ "ETH" 7)]

theorem book_sevenInParts : sevenInParts.book = sevenAtOnce.book := by
  have hparts : sevenInParts = (empty.request ⟨1, 0⟩ "ETH" 3).request ⟨1, 0⟩ "ETH" 4 := by
    decide +kernel
  have honce : sevenAtOnce = empty.request ⟨1, 0⟩ "ETH" 7 := by decide +kernel
  rw [hparts, honce, book_request, book_request, book_request, Book.request_request]
  rfl

/-- The draft in which seven are asked for in parts. -/
def draftInParts : Draft :=
  Draft.afterAll ⟨Draft.sharing, .empty⟩ [.request ⟨1, 0⟩ "ETH" 3, .acknowledge ⟨1, 0⟩ "ETH" 9,
    .request ⟨1, 0⟩ "ETH" 4]

/-- The draft in which seven are asked for at once, behind an earlier approval. -/
def draftAtOnce : Draft :=
  Draft.afterAll ⟨Draft.sharing, .empty⟩ [.request ⟨0, 1⟩ "USD" 1, .approve, .setAppData [],
    .request ⟨1, 0⟩ "ETH" 7]

theorem parts_and_whole_have_same_bytes :
    Obtainable sevenInParts ∧ Obtainable sevenAtOnce ∧
    sevenInParts.book = sevenAtOnce.book ∧ sevenInParts.encode = sevenAtOnce.encode ∧
    sevenInParts.encode.length < UInt64.size ∧
    draftInParts.Obtainable ∧ draftAtOnce.Obtainable ∧
    draftInParts.approveLiabilities.state.hash = draftAtOnce.approveLiabilities.state.hash := by
  obtain ⟨hbytes, hhash, hback⟩ := contents_determine_bytes
  have hparts : Obtainable sevenInParts := Obtainable.empty.afterRun _
  have honce : Obtainable sevenAtOnce := Obtainable.empty.afterRun _
  obtain ⟨-, hencode⟩ := hbytes _ _ hparts honce book_sevenInParts
  have hsize : sevenInParts.encode.length < UInt64.size := by decide +kernel
  have hsharing : Draft.Obtainable ⟨Draft.sharing, .empty⟩ :=
    @Draft.Obtainable.ofState Draft.sharing _ rfl
  have hdraftInParts : draftInParts.Obtainable := hsharing.afterAll _
  have hdraftAtOnce : draftAtOnce.Obtainable := hsharing.afterAll _
  have hledgers : draftInParts.ledger = sevenInParts ∧ draftAtOnce.ledger = sevenAtOnce := by
    decide +kernel
  have hbook : draftInParts.ledger.book = draftAtOnce.ledger.book := by
    rw [hledgers.1, hledgers.2]
    exact book_sevenInParts
  have hstate : ({ draftInParts.state with appData := [] } : State)
      = { draftAtOnce.state with appData := [] } := by
    decide +kernel
  obtain ⟨-, -, hsame⟩ := hhash _ _ hdraftInParts hdraftAtOnce hbook hstate
  exact ⟨hparts, honce, hback _ _ hparts honce hencode hsize, hencode, hsize, hdraftInParts,
    hdraftAtOnce, hsame⟩

end Ledger

end DebtChannel
