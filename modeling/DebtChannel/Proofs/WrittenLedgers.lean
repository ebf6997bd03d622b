import DebtChannel.Proofs.AgreedLedgers

/-!
# The ledger in the state of a draft

A draft holds two ledgers. One is at hand and changed freely, the other is in the data of the state,
as bytes, and is what would be signed. They part with the first change that is made, and meet again
whenever the state is written to, be it with the ledger at hand or with data that is read as another
one. In between the data is not touched (`appData_afterAll_of_not_writes`). So the ledger that is
read from a state is the one that was at hand when the state was last written to
(`Readable.decode_after_of_writes`).

The bytes of a ledger read back unless there are `2 ^ 64` of them or more, which only an approval
could come to write.

A draft that has just been approved has the same ledger twice, and its bytes can do without one.
-/

namespace DebtChannel.Draft

variable {draft : Draft} {operation : Operation}

/-- Whether an operation writes a ledger into the state. Data that is no ledger is not written. -/
def Operation.writes : Operation → Bool
  | .approve => true
  | .setAppData appData => (Ledger.decode appData).isOk
  | _ => false

/-- Whether an operation changes the ledger at hand. -/
def Operation.changesLiabilities : Operation → Bool
  | .request _ _ _ | .acknowledge _ _ _ | .revert _ _ _ => true
  | _ => false

/-! ## One operation -/

theorem state_after_of_changesLiabilities (h : operation.changesLiabilities = true) :
    (draft.after operation).state = draft.state := by
  unfold after
  split
  · next changed hok =>
      cases operation with
      | request pair asset amount | acknowledge pair asset amount | revert pair asset amount =>
          exact state_eq_of_changeLedger hok
      | setFinal | setAppData appData | approve => cases h
  · rfl

theorem after_setAppData_of_ok {appData : Bytes} {ledger : Ledger}
    (h : Ledger.decode appData = .ok ledger) :
    draft.after (.setAppData appData) = ⟨{ draft.state with appData }, ledger⟩ := by
  simp only [after, apply, setAppData, h]
  rfl

theorem after_setAppData_of_error {appData : Bytes} {cause : Wire.DecodeError}
    (h : Ledger.decode appData = .error cause) : draft.after (.setAppData appData) = draft := by
  simp only [after, apply, setAppData, h]
  rfl

theorem appData_after_of_not_writes (h : operation.writes = false) :
    (draft.after operation).state.appData = draft.state.appData := by
  cases operation with
  | setFinal => rfl
  | setAppData appData =>
      cases hledger : Ledger.decode appData with
      | ok ledger =>
          rw [Operation.writes, hledger] at h
          cases h
      | error cause => rw [after_setAppData_of_error hledger]
  | request pair asset amount | acknowledge pair asset amount | revert pair asset amount =>
      rw [state_after_of_changesLiabilities rfl]
  | approve => cases h

theorem decode_after_of_ne_approve (hwrites : operation.writes = true)
    (hne : operation ≠ .approve) :
    Ledger.decode (draft.after operation).state.appData = .ok (draft.after operation).ledger := by
  cases operation with
  | approve => exact absurd rfl hne
  | setAppData appData =>
      cases hledger : Ledger.decode appData with
      | error cause =>
          rw [Operation.writes, hledger] at hwrites
          cases hwrites
      | ok ledger =>
          rw [after_setAppData_of_ok hledger]
          exact hledger
  | setFinal | request pair asset amount | acknowledge pair asset amount
  | revert pair asset amount => cases hwrites

/-- Whoever reads the state after it was written to gets the ledger at hand. -/
theorem Readable.decode_after_of_writes (h : draft.Readable) (hwrites : operation.writes = true)
    (hsize : operation = .approve →
      (draft.after operation).state.appData.length < UInt64.size) :
    Ledger.decode (draft.after operation).state.appData = .ok (draft.after operation).ledger := by
  by_cases happrove : operation = .approve
  · have hlength := hsize happrove
    rw [happrove] at hlength ⊢
    exact (h.after .approve).decode_of_approved (approved_after_approve draft) hlength
  · exact decode_after_of_ne_approve hwrites happrove

theorem carriesLedger_after (h : draft.state.CarriesLedger) (hne : operation ≠ .approve) :
    (draft.after operation).state.CarriesLedger := by
  cases hwrites : operation.writes with
  | false =>
      rw [State.CarriesLedger, appData_after_of_not_writes hwrites]
      exact h
  | true => exact ⟨_, decode_after_of_ne_approve hwrites hne⟩

/-! ## Many operations -/

theorem afterAll_append_cons (earlier later : List Operation) :
    draft.afterAll (earlier ++ operation :: later)
      = (draft.afterAll (earlier ++ [operation])).afterAll later := by
  simp only [afterAll, List.foldl_append, List.foldl_cons, List.foldl_nil]

theorem afterAll_concat (earlier : List Operation) :
    draft.afterAll (earlier ++ [operation]) = (draft.afterAll earlier).after operation := by
  simp only [afterAll, List.foldl_append, List.foldl_cons, List.foldl_nil]

theorem appData_afterAll_of_not_writes :
    ∀ {operations : List Operation} {draft : Draft},
      (∀ operation ∈ operations, operation.writes = false) →
      (draft.afterAll operations).state.appData = draft.state.appData := by
  intro operations
  induction operations with
  | nil => intro draft _; rfl
  | cons operation operations ih =>
      intro draft h
      rw [List.forall_mem_cons] at h
      exact (ih h.2).trans (appData_after_of_not_writes h.1)

theorem carriesLedger_afterAll :
    ∀ {operations : List Operation} {draft : Draft}, draft.state.CarriesLedger →
      .approve ∉ operations → (draft.afterAll operations).state.CarriesLedger := by
  intro operations
  induction operations with
  | nil => intro draft h _; exact h
  | cons operation operations ih =>
      intro draft h hnot
      rw [List.mem_cons, not_or] at hnot
      exact ih (carriesLedger_after h (Ne.symm hnot.1)) hnot.2

theorem Readable.decode_afterAll_of_writes (h : draft.Readable) {earlier later : List Operation}
    (hwrites : operation.writes = true) (hlater : ∀ next ∈ later, next.writes = false)
    (hsize : operation = .approve →
      (draft.afterAll (earlier ++ operation :: later)).state.appData.length < UInt64.size) :
    Ledger.decode (draft.afterAll (earlier ++ operation :: later)).state.appData
      = .ok (draft.afterAll (earlier ++ [operation])).ledger := by
  -- What came after the operation has not touched the data.
  rw [afterAll_append_cons, appData_afterAll_of_not_writes hlater, afterAll_concat] at hsize ⊢
  exact (h.afterAll earlier).decode_after_of_writes hwrites hsize

/-! ## What a draft begins with -/

theorem ofState_eq_ok {state : State} {ledger : Ledger}
    (h : Ledger.decode state.appData = .ok ledger) : ofState state = .ok ⟨state, ledger⟩ := by
  rw [ofState, h]
  rfl

theorem carriesLedger_ofState {state : State} (h : ofState state = .ok draft) :
    draft.state.CarriesLedger := by
  obtain ⟨ledger, hledger, rfl⟩ := exists_ok_of_map_eq_ok h
  exact ⟨ledger, hledger⟩

theorem carriesLedger_decode {bytes : Bytes} (h : decode bytes = .ok draft) :
    draft.state.CarriesLedger := by
  rcases decode_cases h with ⟨state, hstate⟩ | ⟨state, ledger, -, hstate⟩
  · exact carriesLedger_ofState hstate
  · obtain ⟨agreed, hagreed, rfl⟩ := exists_ok_of_map_eq_ok hstate
    exact ⟨agreed, hagreed⟩

/-! ## Bytes without the ledger -/

/-- The bytes of a draft with the ledger left out. -/
def encodeState (draft : Draft) : Bytes :=
  Wire.Field.writeAll (Wire.Message.Draft.fields { draft.toMessage with ledger := none })

theorem length_encodeState_le (draft : Draft) : draft.encodeState.length ≤ draft.encode.length := by
  have hfields : draft.toMessage.fields
      = Wire.Message.Draft.fields { draft.toMessage with ledger := none }
        ++ [Wire.Field.ofMessage 2 draft.ledger.toMessage.fields] := rfl
  rw [encode, encodeState, hfields, Wire.Field.writeAll, Wire.Field.writeAll, List.flatMap_append,
    List.length_append]
  exact Nat.le_add_right _ _

/-- They are read as the draft of the state. -/
theorem decode_encodeState (hsize : draft.encode.length < UInt64.size) :
    decode draft.encodeState = ofState draft.state := by
  refine (decode_writeAll draft.state.toMessage none
    (Nat.lt_of_le_of_lt draft.length_encodeState_le hsize)).trans ?_
  simp only [ofMessage, State.ofMessage_toMessage]

/-! ## Whole lives of a draft -/

/-- Whatever is done with a draft that was made from a state or read from bytes, its state stays that
of one channel, turn and outcome. A draft can be made of its state again, unless an approval wrote
`2 ^ 64` bytes or more. That one has the ledger that the draft had when its state was last written
to, or the one that was in the data to begin with. Changes of the liabilities do not touch the
state. And right after an approval the draft of the state is the draft itself, and its bytes are
read alike with the ledger and without. -/
theorem draft_agrees_with_its_state (start : Draft)
    (hstart : (∃ state, ofState state = .ok start) ∨ ∃ bytes, decode bytes = .ok start)
    (operations : List Operation) :
    Revises (start.afterAll operations).state start.state ∧
    ((.approve ∈ operations →
        (start.afterAll operations).state.appData.length < UInt64.size) →
      ∃ ledger, ofState (start.afterAll operations).state
          = .ok ⟨(start.afterAll operations).state, ledger⟩ ∧
        (∀ earlier operation later, operations = earlier ++ operation :: later →
          operation.writes = true → (∀ next ∈ later, next.writes = false) →
          ledger = (start.afterAll (earlier ++ [operation])).ledger) ∧
        ((∀ operation ∈ operations, operation.writes = false) →
          Ledger.decode start.state.appData = .ok ledger)) ∧
    (∀ operation, operation.changesLiabilities = true →
      ((start.afterAll operations).after operation).state = (start.afterAll operations).state) ∧
    (((start.afterAll operations).after .approve).state.appData.length < UInt64.size →
      ofState ((start.afterAll operations).after .approve).state
        = .ok ((start.afterAll operations).after .approve)) ∧
    (((start.afterAll operations).after .approve).encode.length < UInt64.size →
      decode ((start.afterAll operations).after .approve).encodeState
          = .ok ((start.afterAll operations).after .approve) ∧
        decode ((start.afterAll operations).after .approve).encode
          = .ok ((start.afterAll operations).after .approve)) := by
  have hreadable : start.Readable := by
    rcases hstart with ⟨state, hstate⟩ | ⟨bytes, hbytes⟩
    · exact readable_ofState hstate
    · exact readable_decode hbytes
  have hbegin : start.state.CarriesLedger := by
    rcases hstart with ⟨state, hstate⟩ | ⟨bytes, hbytes⟩
    · exact carriesLedger_ofState hstate
    · exact carriesLedger_decode hbytes
  have happroved : ((start.afterAll operations).after .approve).state.appData.length < UInt64.size →
      ofState ((start.afterAll operations).after .approve).state
        = .ok ((start.afterAll operations).after .approve) := fun hsize =>
    ofState_eq_ok ((hreadable.afterAll operations).decode_after_of_writes rfl fun _ => hsize)
  refine ⟨revises_afterAll start operations, fun hsize => ?_,
    fun operation hchanges => state_after_of_changesLiabilities hchanges, happroved,
    fun hsize => ⟨?_, ?_⟩⟩
  · -- Without an approval the data has been read as a ledger before, however long it is.
    obtain ⟨ledger, hledger⟩ : (start.afterAll operations).state.CarriesLedger := by
      by_cases happroves : .approve ∈ operations
      · exact (hreadable.afterAll operations).decodes (hsize happroves)
      · exact carriesLedger_afterAll hbegin happroves
    refine ⟨ledger, ofState_eq_ok hledger, ?_, fun hnone => ?_⟩
    · rintro earlier operation later rfl hwrites hlater
      have hwritten := hreadable.decode_afterAll_of_writes hwrites hlater fun happrove =>
        hsize (happrove ▸ List.mem_append_cons_self)
      exact Except.ok.inj (hledger.symm.trans hwritten)
    · rwa [appData_afterAll_of_not_writes hnone] at hledger
  · rw [decode_encodeState hsize]
    exact happroved (Nat.lt_of_le_of_lt (length_appData_le_encode _) hsize)
  · exact ((hreadable.afterAll operations).after .approve).decode_encode hsize

/-- The draft that was left open is approved as far as it was, and not further. -/
theorem leftOpen_agrees_with_its_state :
    ofState sharing = .ok ⟨sharing, .empty⟩ ∧
    (∃ ledger, ofState leftOpen.state = .ok ⟨leftOpen.state, ledger⟩ ∧
      ledger.pending ⟨1, 0⟩ "ETH" = 5 ∧ leftOpen.ledger.pending ⟨1, 0⟩ "ETH" = 3) ∧
    leftOpen.state.appData.length < UInt64.size ∧
    (leftOpen.after .approve).encode.length < UInt64.size ∧
    decode (leftOpen.after .approve).encodeState = .ok (leftOpen.after .approve) := by
  have hmade : ofState sharing = .ok ⟨sharing, .empty⟩ := rfl
  have hsize : leftOpen.state.appData.length < UInt64.size := by decide +kernel
  have hencode : (leftOpen.after .approve).encode.length < UInt64.size := by decide +kernel
  obtain ⟨-, hagrees, -, -, hleftOut⟩ := draft_agrees_with_its_state ⟨sharing, .empty⟩
    (.inl ⟨sharing, hmade⟩) _
  obtain ⟨ledger, hledger, hwritten, -⟩ := hagrees fun _ => hsize
  have happroved := hwritten [.request ⟨1, 0⟩ "ETH" 5] .approve _ rfl rfl (by decide)
  refine ⟨hmade, ⟨ledger, hledger, ?_, by decide +kernel⟩, hsize, hencode, (hleftOut hencode).1⟩
  rw [happroved]
  decide +kernel

end DebtChannel.Draft
