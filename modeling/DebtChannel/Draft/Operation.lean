import DebtChannel.Draft

/-!
# Operations of a draft, one after the other

All that changes a draft, as data: it can be marked as the last state, get other data, have its
ledger changed in three ways, and have its ledger approved. An operation that fails leaves the draft
as it is. None of them touches the channel that the draft is for, its turn or its outcome.
-/

namespace DebtChannel.Draft

open Wire (DecodeError)

/-- Something that can be done with a draft. -/
inductive Operation where
  /-- Mark it as the last state. -/
  | setFinal
  /-- Give it other data. -/
  | setAppData (appData : Bytes)
  /-- Ask a debtor for an amount. -/
  | request (pair : Pair) (asset : AssetCode) (amount : Uint256)
  /-- Confirm a pending amount. -/
  | acknowledge (pair : Pair) (asset : AssetCode) (amount : Uint256)
  /-- Withdraw a pending amount. -/
  | revert (pair : Pair) (asset : AssetCode) (amount : Uint256)
  /-- Write the ledger into the state. -/
  | approve
deriving DecidableEq

/-- Why an operation changed nothing. -/
inductive Failure where
  /-- The data is no ledger. -/
  | appData (cause : DecodeError)
  /-- The ledger was not changed. -/
  | liability (cause : Error)
deriving DecidableEq

/-- The draft after an operation, if that does not fail. -/
def apply (draft : Draft) : Operation → Except Failure Draft
  | .setFinal => .ok draft.setFinal
  | .setAppData appData => (draft.setAppData appData).mapError .appData
  | .request pair asset amount => (draft.requestLiability pair asset amount).mapError .liability
  | .acknowledge pair asset amount =>
      (draft.acknowledgeLiability pair asset amount).mapError .liability
  | .revert pair asset amount => (draft.revertLiability pair asset amount).mapError .liability
  | .approve => .ok draft.approveLiabilities

/-- The draft after an operation, which is the same draft if that fails. -/
def after (draft : Draft) (operation : Operation) : Draft :=
  match draft.apply operation with
  | .ok changed => changed
  | .error _ => draft

/-- The draft after operations, one after the other. -/
def afterAll (draft : Draft) (operations : List Operation) : Draft := operations.foldl after draft

/-- Two states of one turn that share out alike. They may differ in their data, and in whether they
are the last state. -/
structure Revises (revised original : State) : Prop where
  fixed_eq : revised.toFixedPart = original.toFixedPart
  outcome_eq : revised.outcome = original.outcome
  turn_eq : revised.turn = original.turn

theorem Revises.refl (state : State) : Revises state state := ⟨rfl, rfl, rfl⟩

theorem Revises.trans {a b c : State} (hab : Revises a b) (hbc : Revises b c) : Revises a c :=
  ⟨hab.fixed_eq.trans hbc.fixed_eq, hab.outcome_eq.trans hbc.outcome_eq,
    hab.turn_eq.trans hbc.turn_eq⟩

/-- A change of the ledger leaves the state as it is. -/
theorem state_eq_of_changeLedger {ε : Type} {wrap : Error → ε} {draft changed : Draft} {pair : Pair}
    {change : Ledger → Except Ledger.Error Ledger}
    (h : (draft.changeLedger pair change).mapError wrap = .ok changed) :
    changed.state = draft.state := by
  cases hchange : draft.changeLedger pair change with
  | error cause => rw [hchange] at h; cases h
  | ok made =>
      rw [hchange] at h
      obtain ⟨ledger, -, -, rfl⟩ := changeLedger_ok hchange
      obtain rfl := Except.ok.inj h
      rfl

theorem revises_apply {draft changed : Draft} {operation : Operation}
    (h : draft.apply operation = .ok changed) : Revises changed.state draft.state := by
  cases operation with
  | setFinal =>
      obtain rfl := Except.ok.inj h
      exact ⟨rfl, rfl, rfl⟩
  | setAppData appData =>
      cases hledger : Ledger.decode appData with
      | error cause => simp only [apply, setAppData, hledger] at h; cases h
      | ok ledger =>
          simp only [apply, setAppData, hledger] at h
          obtain rfl := Except.ok.inj h
          exact ⟨rfl, rfl, rfl⟩
  | request pair asset amount | acknowledge pair asset amount | revert pair asset amount =>
      rw [state_eq_of_changeLedger h]
      exact Revises.refl _
  | approve =>
      obtain rfl := Except.ok.inj h
      exact ⟨rfl, rfl, rfl⟩

theorem revises_after (draft : Draft) (operation : Operation) :
    Revises (draft.after operation).state draft.state := by
  unfold after
  split
  · next changed hok => exact revises_apply hok
  · exact Revises.refl _

theorem revises_afterAll (draft : Draft) (operations : List Operation) :
    Revises (draft.afterAll operations).state draft.state := by
  induction operations generalizing draft with
  | nil => exact Revises.refl _
  | cons operation operations ih =>
      exact (ih (draft.after operation)).trans (revises_after draft operation)

end DebtChannel.Draft
