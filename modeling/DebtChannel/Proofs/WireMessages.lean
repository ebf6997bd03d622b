import DebtChannel.Proofs.Results
import DebtChannel.Proofs.WireFields
import DebtChannel.Wire.Message

/-!
# Messages read back

The fields of a message are written in blocks, one block for each part, and every block has a field
number of its own. So what a part reads from all fields is its own block: `filter` finds the block,
and one lemma for each kind of part says what is read from it. A default that was left out comes
back because an empty block reads as the default, and a message that is empty comes back because its
field is written even so.

Messages inside a message are read from the bytes of their fields, which are no longer than the
bytes of the message around them, and one level deeper. Hence every statement below asks for some
depth that is left and for a length below `2 ^ 64`, and passes both on.
-/

namespace DebtChannel.Wire

open DebtChannel.Wire.Field DebtChannel.Wire.Reader

/-! ## Blocks -/

namespace Field

/-- The fields under a number among those that all have one number. -/
theorem filter_of_forall {fields : List Field} {number : Nat}
    (h : ∀ field ∈ fields, field.number = number) (wanted : Nat) :
    fields.filter (·.number = wanted) = if number = wanted then fields else [] := by
  split
  · next hsame =>
      refine List.filter_eq_self.mpr fun field hfield => ?_
      rw [h field hfield, hsame]
      exact decide_eq_true rfl
  · next hne =>
      refine List.filter_eq_nil_iff.mpr fun field hfield => ?_
      rw [h field hfield]
      simpa using hne

theorem filter_ofNumber (number value wanted : Nat) :
    (ofNumber number value).filter (·.number = wanted)
      = if number = wanted then ofNumber number value else [] := by
  refine filter_of_forall (fun field hfield => ?_) wanted
  unfold ofNumber at hfield
  split at hfield
  · exact absurd hfield List.not_mem_nil
  · rw [List.mem_singleton.mp hfield]

theorem filter_ofBytes (number : Nat) (value : Bytes) (wanted : Nat) :
    (ofBytes number value).filter (·.number = wanted)
      = if number = wanted then ofBytes number value else [] := by
  refine filter_of_forall (fun field hfield => ?_) wanted
  unfold ofBytes at hfield
  split at hfield
  · exact absurd hfield List.not_mem_nil
  · rw [List.mem_singleton.mp hfield]

theorem filter_map {α : Type} (number : Nat) (content : α → Bytes) (values : List α)
    (wanted : Nat) :
    (values.map fun value => (⟨number, .content (content value)⟩ : Field)).filter
        (·.number = wanted)
      = if number = wanted then values.map fun value => ⟨number, .content (content value)⟩
        else [] := by
  refine filter_of_forall (fun field hfield => ?_) wanted
  obtain ⟨value, -, rfl⟩ := List.mem_map.mp hfield
  rfl

end Field

/-! ## Parts -/

namespace Reader

variable {fields : List Field} {number : Nat}

theorem numbers_of_filter {value : Nat}
    (h : fields.filter (·.number = number) = ofNumber number value) :
    (numbers number fields).map (·.getLastD 0) = some value := by
  unfold numbers ofNumber at *
  rw [h]
  split
  · next hzero => rw [hzero]; rfl
  · rfl

theorem uint64_of_filter {value : UInt64}
    (h : fields.filter (·.number = number) = ofNumber number value.toNat) :
    uint64 number fields = some value := by
  obtain ⟨found, hfound, hlast⟩ := Option.map_eq_some_iff.mp (numbers_of_filter h)
  simp only [uint64, hfound, bind, Option.bind, hlast, UInt64.ofNat_toNat]

theorem uint32_of_filter {value : UInt32}
    (h : fields.filter (·.number = number) = ofNumber number value.toNat) :
    uint32 number fields = some value := by
  obtain ⟨found, hfound, hlast⟩ := Option.map_eq_some_iff.mp (numbers_of_filter h)
  simp only [uint32, hfound, bind, Option.bind, hlast, UInt32.ofNat_toNat]

theorem bool_of_filter {value : Bool}
    (h : fields.filter (·.number = number) = ofBool number value) :
    bool number fields = some value := by
  obtain ⟨found, hfound, hlast⟩ := Option.map_eq_some_iff.mp (numbers_of_filter h)
  simp only [bool, hfound, bind, Option.bind, hlast]
  cases value <;> rfl

theorem contents_of_filter {α : Type} (content : α → Bytes) {values : List α}
    (h : fields.filter (·.number = number)
      = values.map fun value => ⟨number, .content (content value)⟩) :
    contents number fields = some (values.map content) := by
  rw [contents, h]
  exact mapM_map_eq_pure _ Field.content? content fun value _ => rfl

theorem contents_of_filter_ofBytes {value : Bytes}
    (h : fields.filter (·.number = number) = ofBytes number value) :
    contents number fields = some (if value = [] then [] else [value]) := by
  rw [contents, h, ofBytes]
  split <;> rfl

/-- Bytes are left out only if there are none. -/
theorem content_mem_of_filter {value : Bytes}
    (h : fields.filter (·.number = number) = ofBytes number value) (hsome : value ≠ []) :
    ⟨number, .content value⟩ ∈ fields := by
  rw [ofBytes, if_neg hsome] at h
  exact (List.mem_filter.mp (h ▸ List.mem_singleton_self _)).1

theorem bytes_of_filter {value : Bytes}
    (h : fields.filter (·.number = number) = ofBytes number value) :
    bytes number fields = some value := by
  simp only [bytes, contents_of_filter_ofBytes h, bind, Option.bind]
  split
  · next hnone => rw [hnone]; rfl
  · rfl

theorem string_of_filter {value : String}
    (h : fields.filter (·.number = number) = ofString number value) :
    string number fields = some value := by
  unfold string
  rw [contents_of_filter_ofBytes h]
  have htext := Bytes.toString?_ofString value
  -- A text without bytes was left out; it is the default, since no other text has no bytes.
  by_cases hnone : Bytes.ofString value = []
  · rw [hnone] at htext
    rw [if_pos hnone, ← Option.some.inj htext]
    rfl
  · rw [if_neg hnone]
    simp only [bind, Option.bind, List.mapM_cons, List.mapM_nil, htext, pure]
    rfl

variable {α : Type} {depth : Nat} {read : Reader α} {toFields : α → List Field}

/-- A message inside another one can be read from its bytes. -/
theorem readFields_ofMessage (hdepth : 0 < depth) {value : α}
    (hmem : ofMessage number (toFields value) ∈ fields.filter (·.number = number))
    (hsize : (writeAll fields).length < UInt64.size)
    (hwritable : ∀ field ∈ toFields value, field.Writable) :
    (writeAll (toFields value)).length < UInt64.size ∧
      readFields depth (writeAll (toFields value)) = some (toFields value) := by
  have hlength := Nat.lt_of_le_of_lt (length_le_writeAll (List.mem_filter.mp hmem).1) hsize
  exact ⟨hlength, readFields_writeAll hdepth hwritable hlength⟩

theorem messages_of_filter (hdepth : 0 < depth) {values : List α}
    (h : fields.filter (·.number = number)
      = values.map fun value => ofMessage number (toFields value))
    (hsize : (writeAll fields).length < UInt64.size)
    (hwritable : ∀ value ∈ values, ∀ field ∈ toFields value, field.Writable)
    (hread : ∀ value ∈ values, (writeAll (toFields value)).length < UInt64.size →
      read (toFields value) = some value) :
    messages depth read number fields = some values := by
  have hvalue : ∀ value ∈ values,
      (do read (← readFields depth (writeAll (toFields value)))) = (pure (id value) : Option α) := by
    intro value hvalue
    have hmem : ofMessage number (toFields value) ∈ fields.filter (·.number = number) := by
      rw [h]
      exact List.mem_map.mpr ⟨value, hvalue, rfl⟩
    obtain ⟨hlength, hfields⟩ := readFields_ofMessage hdepth hmem hsize (hwritable value hvalue)
    rw [hfields]
    exact hread value hvalue hlength
  have hcontents := contents_of_filter (fun value => writeAll (toFields value)) h
  have hall := mapM_map_eq_pure (fun value => writeAll (toFields value))
    (fun content => do read (← readFields depth content)) id hvalue
  rw [List.map_id] at hall
  unfold messages
  rw [hcontents]
  exact hall

theorem message?_of_filter (hdepth : 0 < depth) {value : α}
    (h : fields.filter (·.number = number) = [ofMessage number (toFields value)])
    (hsize : (writeAll fields).length < UInt64.size)
    (hwritable : ∀ field ∈ toFields value, field.Writable)
    (hread : (writeAll (toFields value)).length < UInt64.size →
      read (toFields value) = some value) :
    message? depth read number fields = some (some value) := by
  have hmem : ofMessage number (toFields value) ∈ fields.filter (·.number = number) := by
    rw [h]
    exact List.mem_singleton_self _
  obtain ⟨hlength, hfields⟩ := readFields_ofMessage hdepth hmem hsize hwritable
  have hcontents : contents number fields = some [writeAll (toFields value)] :=
    contents_of_filter (fun value => writeAll (toFields value)) (h : _ = [value].map _)
  unfold message?
  rw [hcontents]
  simp only [bind, Option.bind, List.mapM_cons, List.mapM_nil, hfields, pure, List.flatten_cons,
    List.flatten_nil, List.append_nil, hread hlength]

theorem message?_of_filter_nil (h : fields.filter (·.number = number) = []) :
    message? depth read number fields = some none := by
  have hcontents : contents number fields = some (([] : List Bytes).map id) :=
    contents_of_filter id h
  unfold message?
  rw [hcontents]
  rfl

end Reader

/-! ## Blocks that can be written -/

namespace Field

variable {number : Nat} (hkey : HasKey number)

include hkey

theorem writable_ofNumber {value : Nat} (hvalue : value < UInt64.size) :
    ∀ field ∈ ofNumber number value, field.Writable := by
  intro field hfield
  unfold ofNumber at hfield
  split at hfield
  · exact absurd hfield List.not_mem_nil
  · rw [List.mem_singleton.mp hfield]
    exact .number hkey hvalue

theorem writable_ofUInt64 (value : UInt64) : ∀ field ∈ ofNumber number value.toNat, field.Writable :=
  writable_ofNumber hkey value.toNat_lt

theorem writable_ofUInt32 (value : UInt32) : ∀ field ∈ ofNumber number value.toNat, field.Writable :=
  writable_ofNumber hkey (Nat.lt_trans value.toNat_lt (by decide))

theorem writable_ofBool (value : Bool) : ∀ field ∈ ofBool number value, field.Writable :=
  writable_ofNumber hkey (by cases value <;> decide)

theorem writable_ofBytes (value : Bytes) : ∀ field ∈ ofBytes number value, field.Writable := by
  intro field hfield
  unfold ofBytes at hfield
  split at hfield
  · exact absurd hfield List.not_mem_nil
  · rw [List.mem_singleton.mp hfield]
    exact .content hkey

theorem writable_map {α : Type} (content : α → Bytes) (values : List α) :
    ∀ field ∈ values.map fun value => (⟨number, .content (content value)⟩ : Field),
      field.Writable := by
  intro field hfield
  obtain ⟨value, -, rfl⟩ := List.mem_map.mp hfield
  exact .content hkey

end Field

/-! ## The messages -/

namespace Message

theorem AssetAmount.writable (m : AssetAmount) : ∀ field ∈ m.fields, field.Writable := by
  rw [AssetAmount.fields, List.forall_mem_append]
  exact ⟨writable_ofBytes (by decide) _, writable_ofBytes (by decide) _⟩

theorem AssetAmount.read_fields (m : AssetAmount) : AssetAmount.read m.fields = some m := by
  have hasset : string 1 m.fields = some m.asset :=
    string_of_filter (by simp [AssetAmount.fields, ofString, filter_ofBytes])
  have hamount : bytes 2 m.fields = some m.amount :=
    bytes_of_filter (by simp [AssetAmount.fields, ofString, filter_ofBytes])
  simp only [AssetAmount.read, hasset, hamount, bind, Option.bind]

theorem Liability.writable (m : Liability) : ∀ field ∈ m.fields, field.Writable := by
  simp only [Liability.fields, List.forall_mem_append]
  exact ⟨⟨⟨writable_ofUInt64 (by decide) _, writable_ofUInt64 (by decide) _⟩,
    writable_map (by decide) _ _⟩, writable_map (by decide) _ _⟩

theorem Liability.read_fields {depth : Nat} (hdepth : 1 < depth) (m : Liability)
    (hsize : (writeAll m.fields).length < UInt64.size) :
    Liability.read depth m.fields = some m := by
  have hbelow : 0 < depth - 1 := by omega
  have hdebtor : uint64 1 m.fields = some m.debtor :=
    uint64_of_filter (by simp [Liability.fields, ofMessage, filter_ofNumber, filter_map])
  have hcreditor : uint64 2 m.fields = some m.creditor :=
    uint64_of_filter (by simp [Liability.fields, ofMessage, filter_ofNumber, filter_map])
  have hpending : messages (depth - 1) AssetAmount.read 3 m.fields = some m.pending :=
    messages_of_filter hbelow
      (by simp [Liability.fields, ofMessage, filter_ofNumber, filter_map]) hsize
      (fun a _ => a.writable) fun a _ _ => a.read_fields
  have hexecuted : messages (depth - 1) AssetAmount.read 4 m.fields = some m.executed :=
    messages_of_filter hbelow
      (by simp [Liability.fields, ofMessage, filter_ofNumber, filter_map]) hsize
      (fun a _ => a.writable) fun a _ _ => a.read_fields
  simp only [Liability.read, hdebtor, hcreditor, hpending, hexecuted, bind, Option.bind]

theorem Ledger.writable (m : Ledger) : ∀ field ∈ m.fields, field.Writable :=
  writable_map (by decide) _ _

theorem Ledger.read_fields {depth : Nat} (hdepth : 2 < depth) (m : Ledger)
    (hsize : (writeAll m.fields).length < UInt64.size) :
    Ledger.read depth m.fields = some m := by
  have hliabilities :
      messages (depth - 1) (Liability.read (depth - 1)) 1 m.fields = some m.liabilities :=
    messages_of_filter (by omega) (by simp [Ledger.fields, ofMessage, filter_map]) hsize
      (fun l _ => l.writable) fun l _ => l.read_fields (by omega)
  simp only [Ledger.read, hliabilities, bind, Option.bind]

theorem Allocation.writable (m : Allocation) : ∀ field ∈ m.fields, field.Writable := by
  simp only [Allocation.fields, List.forall_mem_append]
  exact ⟨⟨⟨writable_ofBytes (by decide) _, writable_ofBytes (by decide) _⟩,
    writable_ofUInt32 (by decide) _⟩, writable_ofBytes (by decide) _⟩

theorem Allocation.read_fields (m : Allocation) : Allocation.read m.fields = some m := by
  have hdestination : bytes 1 m.fields = some m.destination :=
    bytes_of_filter (by simp [Allocation.fields, filter_ofBytes, filter_ofNumber])
  have hamount : bytes 2 m.fields = some m.amount :=
    bytes_of_filter (by simp [Allocation.fields, filter_ofBytes, filter_ofNumber])
  have htype : uint32 3 m.fields = some m.allocationType :=
    uint32_of_filter (by simp [Allocation.fields, filter_ofBytes, filter_ofNumber])
  have hmetadata : bytes 4 m.fields = some m.metadata :=
    bytes_of_filter (by simp [Allocation.fields, filter_ofBytes, filter_ofNumber])
  simp only [Allocation.read, hdestination, hamount, htype, hmetadata, bind, Option.bind]

theorem Exit.writable (m : Exit) : ∀ field ∈ m.fields, field.Writable := by
  simp only [Exit.fields, List.forall_mem_append]
  exact ⟨⟨writable_ofBytes (by decide) _, writable_ofBytes (by decide) _⟩,
    writable_map (by decide) _ _⟩

theorem Exit.read_fields {depth : Nat} (hdepth : 1 < depth) (m : Exit)
    (hsize : (writeAll m.fields).length < UInt64.size) : Exit.read depth m.fields = some m := by
  have hasset : bytes 1 m.fields = some m.asset :=
    bytes_of_filter (by simp [Exit.fields, ofMessage, filter_ofBytes, filter_map])
  have hmetadata : bytes 2 m.fields = some m.metadata :=
    bytes_of_filter (by simp [Exit.fields, ofMessage, filter_ofBytes, filter_map])
  have hallocations : messages (depth - 1) Allocation.read 3 m.fields = some m.allocations :=
    messages_of_filter (by omega) (by simp [Exit.fields, ofMessage, filter_ofBytes, filter_map])
      hsize (fun a _ => a.writable) fun a _ _ => a.read_fields
  simp only [Exit.read, hasset, hmetadata, hallocations, bind, Option.bind]

theorem State.writable (m : State) : ∀ field ∈ m.fields, field.Writable := by
  simp only [State.fields, List.forall_mem_append]
  exact ⟨⟨⟨⟨⟨⟨⟨⟨writable_ofBytes (by decide) _, writable_map (by decide) _ _⟩,
    writable_ofBytes (by decide) _⟩, writable_ofBytes (by decide) _⟩,
    writable_ofUInt64 (by decide) _⟩, writable_ofBytes (by decide) _⟩,
    writable_map (by decide) _ _⟩, writable_ofUInt64 (by decide) _⟩, writable_ofBool (by decide) _⟩

/-- The block of each number of a state. -/
theorem State.filter_fields (m : State) (wanted : Nat) :
    m.fields.filter (·.number = wanted)
      = (if 1 = wanted then ofBytes 1 m.chainId else [])
        ++ (if 2 = wanted then m.participants.map fun p => ⟨2, .content p⟩ else [])
        ++ (if 3 = wanted then ofBytes 3 m.channelNonce else [])
        ++ (if 4 = wanted then ofBytes 4 m.appDefinition else [])
        ++ (if 5 = wanted then ofNumber 5 m.challengeDuration.toNat else [])
        ++ (if 6 = wanted then ofBytes 6 m.appData else [])
        ++ (if 7 = wanted then m.outcome.map fun e => ofMessage 7 e.fields else [])
        ++ (if 8 = wanted then ofNumber 8 m.turn.toNat else [])
        ++ (if 9 = wanted then ofBool 9 m.isFinal else []) := by
  simp only [State.fields, ofMessage, ofBool, List.filter_append, filter_ofBytes, filter_ofNumber,
    filter_map]

theorem State.read_fields {depth : Nat} (hdepth : 2 < depth) (m : State)
    (hsize : (writeAll m.fields).length < UInt64.size) : State.read depth m.fields = some m := by
  have hchainId : bytes 1 m.fields = some m.chainId :=
    bytes_of_filter (by simp [State.filter_fields])
  have hparticipants : contents 2 m.fields = some m.participants := by
    have hfound : contents 2 m.fields = some (m.participants.map id) :=
      contents_of_filter id (by simp [State.filter_fields])
    rwa [List.map_id] at hfound
  have hnonce : bytes 3 m.fields = some m.channelNonce :=
    bytes_of_filter (by simp [State.filter_fields])
  have hdefinition : bytes 4 m.fields = some m.appDefinition :=
    bytes_of_filter (by simp [State.filter_fields])
  have hduration : uint64 5 m.fields = some m.challengeDuration :=
    uint64_of_filter (by simp [State.filter_fields])
  have happData : bytes 6 m.fields = some m.appData :=
    bytes_of_filter (by simp [State.filter_fields])
  have houtcome : messages (depth - 1) (Exit.read (depth - 1)) 7 m.fields = some m.outcome :=
    messages_of_filter (by omega) (by simp [State.filter_fields]) hsize (fun e _ => e.writable)
      fun e _ => e.read_fields (by omega)
  have hturn : uint64 8 m.fields = some m.turn := uint64_of_filter (by simp [State.filter_fields])
  have hfinal : Reader.bool 9 m.fields = some m.isFinal := bool_of_filter (by simp [State.filter_fields])
  simp only [State.read, hchainId, hparticipants, hnonce, hdefinition, hduration, happData,
    houtcome, hturn, hfinal, bind, Option.bind]

/-- The block of a message that may be missing. -/
theorem writable_toList {α : Type} {number : Nat} (hkey : HasKey number) (toFields : α → List Field)
    (message : Option α) :
    ∀ field ∈ (message.map fun m => ofMessage number (toFields m)).toList, field.Writable := by
  intro field hfield
  rw [Option.mem_toList, Option.map_eq_some_iff] at hfield
  obtain ⟨m, -, rfl⟩ := hfield
  exact .content hkey

theorem Draft.writable (m : Draft) : ∀ field ∈ m.fields, field.Writable := by
  rw [Draft.fields, List.forall_mem_append]
  exact ⟨writable_toList (by decide) _ _, writable_toList (by decide) _ _⟩

/-- A draft with its state, and with its ledger or without. -/
theorem Draft.read_fields {depth : Nat} (hdepth : 3 < depth) (state : State)
    (ledger : Option Ledger)
    (hsize : (writeAll (fields ⟨some state, ledger⟩)).length < UInt64.size) :
    Draft.read depth (fields ⟨some state, ledger⟩) = some ⟨some state, ledger⟩ := by
  have hstate : message? (depth - 1) (State.read (depth - 1)) 1 (fields ⟨some state, ledger⟩)
      = some (some state) := by
    refine message?_of_filter (by omega) ?_ hsize state.writable (state.read_fields (by omega))
    cases ledger <;> simp [fields, ofMessage]
  have hledger : message? (depth - 1) (Ledger.read (depth - 1)) 2 (fields ⟨some state, ledger⟩)
      = some ledger := by
    cases ledger with
    | none => exact message?_of_filter_nil (by simp [fields, ofMessage])
    | some ledger =>
        exact message?_of_filter (by omega) (by simp [fields, ofMessage]) hsize ledger.writable
          (ledger.read_fields (by omega))
  simp only [Draft.read, hstate, hledger, bind, Option.bind]

theorem Participant.writable (m : Participant) : ∀ field ∈ m.fields, field.Writable := by
  simp only [Participant.fields, List.forall_mem_append]
  exact ⟨⟨⟨writable_ofBytes (by decide) _, writable_ofBytes (by decide) _⟩,
    writable_ofBytes (by decide) _⟩, writable_ofUInt64 (by decide) _⟩

theorem Participant.read_fields (m : Participant) : Participant.read m.fields = some m := by
  have haddress : bytes 1 m.fields = some m.address :=
    bytes_of_filter (by simp [Participant.fields, filter_ofBytes, filter_ofNumber])
  have hdestination : bytes 2 m.fields = some m.destination :=
    bytes_of_filter (by simp [Participant.fields, filter_ofBytes, filter_ofNumber])
  have hamount : bytes 3 m.fields = some m.lockedAmount :=
    bytes_of_filter (by simp [Participant.fields, filter_ofBytes, filter_ofNumber])
  have hindex : uint64 4 m.fields = some m.index :=
    uint64_of_filter (by simp [Participant.fields, filter_ofBytes, filter_ofNumber])
  simp only [Participant.read, haddress, hdestination, hamount, hindex, bind, Option.bind]

theorem Contract.writable (m : Contract) : ∀ field ∈ m.fields, field.Writable := by
  rw [Contract.fields, List.forall_mem_append]
  exact ⟨writable_ofBytes (by decide) _, writable_ofBytes (by decide) _⟩

theorem Contract.read_fields (m : Contract) : Contract.read m.fields = some m := by
  have hadjudicator : bytes 1 m.fields = some m.adjudicator :=
    bytes_of_filter (by simp [Contract.fields, filter_ofBytes])
  have hasset : bytes 2 m.fields = some m.asset :=
    bytes_of_filter (by simp [Contract.fields, filter_ofBytes])
  simp only [Contract.read, hadjudicator, hasset, bind, Option.bind]

theorem Opening.writable (m : Opening) : ∀ field ∈ m.fields, field.Writable := by
  simp only [Opening.fields, List.forall_mem_append]
  exact ⟨⟨writable_map (by decide) (fun p : Participant => writeAll p.fields) _,
    writable_toList (by decide) _ _⟩, writable_toList (by decide) _ _⟩

/-- A proposal of a channel with its contracts and its state. -/
theorem Opening.read_fields {depth : Nat} (hdepth : 3 < depth) (participants : List Participant)
    (contract : Contract) (state : State)
    (hsize : (writeAll (fields ⟨participants, some contract, some state⟩)).length < UInt64.size) :
    Opening.read depth (fields ⟨participants, some contract, some state⟩)
      = some ⟨participants, some contract, some state⟩ := by
  have hparticipants : messages (depth - 1) Participant.read 1
      (fields ⟨participants, some contract, some state⟩) = some participants :=
    messages_of_filter (by omega) (by simp [fields, ofMessage, filter_map]) hsize
      (fun p _ => p.writable) fun p _ _ => p.read_fields
  have hcontract : message? (depth - 1) Contract.read 2
      (fields ⟨participants, some contract, some state⟩) = some (some contract) :=
    message?_of_filter (by omega) (by simp [fields, ofMessage, filter_map]) hsize contract.writable
      fun _ => contract.read_fields
  have hstate : message? (depth - 1) (State.read (depth - 1)) 3
      (fields ⟨participants, some contract, some state⟩) = some (some state) :=
    message?_of_filter (by omega) (by simp [fields, ofMessage, filter_map]) hsize state.writable
      (state.read_fields (by omega))
  simp only [Opening.read, hparticipants, hcontract, hstate, bind, Option.bind]

/-! ## Messages from their bytes -/

theorem ofBytes?_writeAll {α : Type} {read : Nat → Reader α} {fields : List Field} {m : α}
    (hwritable : ∀ field ∈ fields, field.Writable) (hsize : (writeAll fields).length < UInt64.size)
    (hread : read maxDepth fields = some m) : ofBytes? read (writeAll fields) = some m := by
  unfold ofBytes?
  rw [readFields_writeAll (by decide) hwritable hsize]
  exact hread

end Message

end DebtChannel.Wire
