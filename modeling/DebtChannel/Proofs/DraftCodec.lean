import DebtChannel.Draft.Operation
import DebtChannel.Proofs.LedgerCodec
import DebtChannel.Proofs.StateCodec

/-!
# Drafts read back

A draft travels as its state and its ledger, side by side, and reading takes each from its own
message. Two things could go wrong. The ledger would come back changed if it kept a zero, and the
draft would be refused if the data of its state were no ledger. Neither happens to a draft that was
made from a state or read from bytes, whatever was done with it afterwards: the ledger stays free of
zeros as any ledger does, and the data is replaced only by data that was read as a ledger or by the
bytes of the draft's own ledger, which read back.

Bytes of a ledger read back if there are fewer than `2 ^ 64` of them. How many there are is known
only when the draft is written as a whole, so the invariant promises data that reads as a ledger on
that condition.
-/

namespace DebtChannel

open Wire (ContentError DecodeError)

/-- The data of a state takes no more bytes than the state. -/
theorem Wire.Message.State.length_appData_le (message : Wire.Message.State) :
    message.appData.length ≤ (Wire.Field.writeAll message.fields).length := by
  by_cases hnone : message.appData = []
  · rw [hnone]
    exact Nat.zero_le _
  · have hmem : ⟨6, .content message.appData⟩ ∈ message.fields :=
      Wire.Reader.content_mem_of_filter (by simp [filter_fields]) hnone
    exact Wire.Field.length_le_writeAll hmem

namespace Draft

/-- The ledger keeps no zero, and the data reads as a ledger unless it is too long to be read. -/
structure Readable (draft : Draft) : Prop where
  /-- No balance that is kept is zero. -/
  zeroFree : draft.ledger.ZeroFree
  /-- The data is a ledger. -/
  decodes : draft.state.appData.length < UInt64.size →
    ∃ ledger, Ledger.decode draft.state.appData = .ok ledger

variable {draft : Draft}

theorem length_appData_le_encode (draft : Draft) :
    draft.state.appData.length ≤ draft.encode.length := by
  have hmem : Wire.Field.ofMessage 1 draft.state.toMessage.fields ∈ draft.toMessage.fields :=
    List.mem_cons_self
  exact Nat.le_trans draft.state.toMessage.length_appData_le (Wire.Field.length_le_writeAll hmem)

/-- The bytes of a message with a state are read as that message, with its ledger or without. -/
theorem decode_writeAll (state : Wire.Message.State) (ledger : Option Wire.Message.Ledger)
    (hsize : (Wire.Field.writeAll (Wire.Message.Draft.fields ⟨some state, ledger⟩)).length
      < UInt64.size) :
    decode (Wire.Field.writeAll (Wire.Message.Draft.fields ⟨some state, ledger⟩))
      = ofMessage ⟨some state, ledger⟩ := by
  have hwritable := Wire.Message.Draft.writable ⟨some state, ledger⟩
  have hbytes : Wire.Field.writeAll (Wire.Message.Draft.fields ⟨some state, ledger⟩) ≠ [] := by
    rw [Ne, Wire.writeAll_eq_nil_iff hwritable]
    exact List.cons_ne_nil _ _
  have hmessage : Wire.Message.ofBytes? Wire.Message.Draft.read
      (Wire.Field.writeAll (Wire.Message.Draft.fields ⟨some state, ledger⟩))
        = some ⟨some state, ledger⟩ :=
    Wire.Message.ofBytes?_writeAll hwritable hsize
      (Wire.Message.Draft.read_fields (by decide) state ledger hsize)
  rw [decode, if_neg hbytes, hmessage, Option.elim_some]

/-- A draft that can be read reads back from its bytes. -/
theorem Readable.decode_encode (h : draft.Readable) (hsize : draft.encode.length < UInt64.size) :
    decode draft.encode = .ok draft := by
  obtain ⟨ledger, hledger⟩ := h.decodes
    (Nat.lt_of_le_of_lt draft.length_appData_le_encode hsize)
  refine (decode_writeAll draft.state.toMessage (some draft.ledger.toMessage) hsize).trans ?_
  simp only [ofMessage, State.ofMessage_toMessage, h.zeroFree.ofMessage_toMessage, withLedger,
    hledger]
  rfl

/-! ## What a draft is made from, and what is done with it -/

theorem readable_ofState {state : State} (h : ofState state = .ok draft) : draft.Readable := by
  obtain ⟨ledger, hledger, rfl⟩ := exists_ok_of_map_eq_ok h
  exact ⟨Ledger.zeroFree_decode hledger, fun _ => ⟨ledger, hledger⟩⟩

theorem readable_withLedger {state : State} {ledger : Ledger} (hfree : ledger.ZeroFree)
    (h : withLedger state ledger = .ok draft) : draft.Readable := by
  obtain ⟨agreed, hagreed, rfl⟩ := exists_ok_of_map_eq_ok h
  exact ⟨hfree, fun _ => ⟨agreed, hagreed⟩⟩

/-- A draft that is read from bytes is made from a state, with the ledger of its data or with
another one that keeps no zero. -/
theorem decode_cases {bytes : Bytes} (h : decode bytes = .ok draft) :
    (∃ state, ofState state = .ok draft) ∨
      ∃ state ledger, ledger.ZeroFree ∧ withLedger state ledger = .ok draft := by
  unfold decode at h
  split at h
  · cases h
  · cases hmessage : Wire.Message.ofBytes? Wire.Message.Draft.read bytes with
    | none => rw [hmessage] at h; cases h
    | some message =>
        rw [hmessage, Option.elim_some, ofMessage] at h
        split at h
        · cases h
        · split at h
          · cases h
          · next state _ =>
              split at h
              · exact .inl ⟨state, h⟩
              · split at h
                · cases h
                · next ledger hledger =>
                    exact .inr ⟨state, ledger, Ledger.zeroFree_ofMessage hledger, h⟩

theorem readable_decode {bytes : Bytes} (h : decode bytes = .ok draft) : draft.Readable := by
  rcases decode_cases h with ⟨state, hstate⟩ | ⟨state, ledger, hfree, hstate⟩
  · exact readable_ofState hstate
  · exact readable_withLedger hfree hstate

theorem Readable.changeLedger (h : draft.Readable) {pair : Pair}
    {change : Ledger → Except Ledger.Error Ledger} {changed : Draft}
    (hchange : ∀ ledger, change draft.ledger = .ok ledger → ledger.ZeroFree)
    (hok : draft.changeLedger pair change = .ok changed) : changed.Readable := by
  obtain ⟨ledger, -, hledger, rfl⟩ := changeLedger_ok hok
  exact ⟨hchange ledger hledger, h.decodes⟩

theorem Readable.apply (h : draft.Readable) {operation : Operation} {changed : Draft}
    (hok : draft.apply operation = .ok changed) : changed.Readable := by
  cases operation with
  | setFinal =>
      obtain rfl := Except.ok.inj hok
      exact ⟨h.zeroFree, h.decodes⟩
  | setAppData appData =>
      obtain ⟨ledger, hledger, rfl⟩ := exists_ok_of_map_eq_ok (eq_ok_of_mapError_eq_ok hok)
      exact ⟨Ledger.zeroFree_decode hledger, fun _ => ⟨ledger, hledger⟩⟩
  | request pair asset amount =>
      refine h.changeLedger (fun ledger hledger => ?_) (eq_ok_of_mapError_eq_ok hok)
      obtain rfl := Except.ok.inj hledger
      exact h.zeroFree.request pair asset amount
  | acknowledge pair asset amount =>
      exact h.changeLedger (fun ledger hledger => h.zeroFree.acknowledge hledger)
        (eq_ok_of_mapError_eq_ok hok)
  | revert pair asset amount =>
      exact h.changeLedger (fun ledger hledger => h.zeroFree.revert hledger)
        (eq_ok_of_mapError_eq_ok hok)
  | approve =>
      -- The data is now the ledger's own bytes, which read back because no zero is kept.
      obtain rfl := Except.ok.inj hok
      exact ⟨h.zeroFree, fun hsize => ⟨draft.ledger, h.zeroFree.decode_encode hsize⟩⟩

theorem Readable.after (h : draft.Readable) (operation : Operation) :
    (draft.after operation).Readable := by
  unfold Draft.after
  split
  · next changed hok => exact h.apply hok
  · exact h

theorem Readable.afterAll (h : draft.Readable) (operations : List Operation) :
    (draft.afterAll operations).Readable := by
  induction operations generalizing draft with
  | nil => exact h
  | cons operation operations ih => exact ih (h.after operation)

/-- The drafts that one can come by: those made from a state or read from bytes, and what is left of
such a draft after an operation, be it refused or not. -/
inductive Obtainable : Draft → Prop where
  | ofState {state : State} {draft : Draft} (h : Draft.ofState state = .ok draft) :
      Obtainable draft
  | decode {bytes : Bytes} {draft : Draft} (h : Draft.decode bytes = .ok draft) : Obtainable draft
  | after {draft : Draft} (operation : Operation) (h : Obtainable draft) :
      Obtainable (draft.after operation)

theorem Obtainable.afterAll {draft : Draft} (h : Obtainable draft) (operations : List Operation) :
    Obtainable (draft.afterAll operations) := by
  induction operations generalizing draft with
  | nil => exact h
  | cons operation operations ih => exact ih (h.after operation)

theorem Obtainable.readable {draft : Draft} (h : Obtainable draft) : draft.Readable := by
  induction h with
  | ofState h => exact readable_ofState h
  | decode h => exact readable_decode h
  | after operation _ ih => exact ih.after operation

/-- Whatever was done with a draft that was made from a state or read from bytes, it reads back as it
is from its bytes, with all changes of its ledger that are not part of the state. In particular,
what was read from bytes of any form reads back from the bytes it is written as. -/
theorem decode_encode_afterAll :
    (∀ start : Draft, ((∃ state, ofState state = .ok start) ∨ ∃ bytes, decode bytes = .ok start) →
      ∀ operations : List Operation,
        (start.afterAll operations).encode.length < UInt64.size →
          decode (start.afterAll operations).encode = .ok (start.afterAll operations)) ∧
    ∀ (bytes : Bytes) (draft : Draft), decode bytes = .ok draft →
      draft.encode.length < UInt64.size → decode draft.encode = .ok draft := by
  constructor
  · intro start hstart operations hsize
    have hreadable : start.Readable := by
      rcases hstart with ⟨state, hstate⟩ | ⟨bytes, hbytes⟩
      · exact readable_ofState hstate
      · exact readable_decode hbytes
    exact (hreadable.afterAll operations).decode_encode hsize
  · intro bytes draft hdraft hsize
    exact (readable_decode hdraft).decode_encode hsize

/-- The state of two participants who share out 300. -/
def sharing : State where
  chainId := 1337
  participants := [⟨FixedBytes.ofNat 20 1⟩, ⟨FixedBytes.ofNat 20 2⟩]
  channelNonce := 7
  appDefinition := .zero
  challengeDuration := 60
  appData := []
  outcome := [⟨.zero, [], [.simple ⟨FixedBytes.ofNat 32 1⟩ 100, .simple ⟨FixedBytes.ofNat 32 2⟩ 200]⟩]
  turn := 2
  isFinal := false

/-- Five are asked for and approved; that two are confirmed is left open. -/
def leftOpen : Draft := (⟨sharing, .empty⟩ : Draft).afterAll
  [.request ⟨1, 0⟩ "ETH" 5, .approve, .acknowledge ⟨1, 0⟩ "ETH" 9, .acknowledge ⟨1, 0⟩ "ETH" 2,
    .request ⟨1, 2⟩ "ETH" 1, .setFinal]

theorem decode_encode_leftOpen :
    ofState sharing = .ok ⟨sharing, .empty⟩ ∧ leftOpen.encode.length < UInt64.size ∧
      leftOpen.state.appData ≠ leftOpen.ledger.encode ∧
      leftOpen.ledger.pending ⟨1, 0⟩ "ETH" = 3 ∧ decode leftOpen.encode = .ok leftOpen := by
  have hmade : ofState sharing = .ok ⟨sharing, .empty⟩ := rfl
  have hsize : leftOpen.encode.length < UInt64.size := by decide +kernel
  have hback := decode_encode_afterAll.1 _ (.inl ⟨sharing, hmade⟩) _ hsize
  exact ⟨hmade, hsize, by decide +kernel, by decide +kernel,
    decode_encode_afterAll.2 leftOpen.encode leftOpen hback hsize⟩

end Draft

end DebtChannel
