import DebtChannel.Channel.SignedTurn

/-!
# One turn on record: its slots and its signatures by account

A turn keeps its signatures twice over: `slots` has one place per participant, and `signatures`
reads the filled places out as a map from accounts. The map forgets the places, so the two only say
the same as long as no account is listed twice and there are as many places as participants. Under
these two conditions the map answers for every account what the slot of its place answers, knows no
other account, and has as many entries as there are filled slots; so a turn is complete exactly when
the map has one entry per participant.

The map is a fold of insertions, so everything is proved of the fold from any map it may have
started with: what a later entry overwrites is the only thing the induction has to watch.
-/

namespace DebtChannel

/-! ## Slots -/

namespace SignedTurn

theorem signatureOf?_addSignature {entry : SignedTurn} {index other : Nat} {sig : Signature}
    (hlt : index < entry.slots.length) :
    (entry.addSignature index sig).signatureOf? other
      = if index = other then some sig else entry.signatureOf? other := by
  unfold signatureOf? addSignature
  rw [List.getElem?_set]
  by_cases heq : index = other
  · subst heq
    rw [if_pos rfl, if_pos hlt, if_pos rfl]
    rfl
  · rw [if_neg heq, if_neg heq]

/-- A signature may take the place of another one, but it never leaves a slot empty. -/
theorem isSome_signatureOf?_addSignature {entry : SignedTurn} {index other : Nat} {sig : Signature}
    (h : (entry.signatureOf? other).isSome) :
    ((entry.addSignature index sig).signatureOf? other).isSome := by
  rcases Nat.lt_or_ge index entry.slots.length with hlt | hge
  · rw [signatureOf?_addSignature hlt]
    split
    · rfl
    · exact h
  · unfold addSignature
    rw [List.set_eq_of_length_le hge]
    exact h

theorem isComplete_ofState (state : State) (h : state.participants ≠ []) :
    (ofState state).isComplete = false := by
  unfold ofState isComplete
  cases hparticipants : state.participants with
  | nil => exact absurd hparticipants h
  | cons account accounts => rfl

theorem isComplete_addSignature {entry : SignedTurn} {index : Nat} {sig : Signature}
    (h : entry.isComplete = true) : (entry.addSignature index sig).isComplete = true := by
  unfold isComplete addSignature at *
  rw [List.all_eq_true] at *
  intro slot hslot
  rcases List.mem_or_eq_of_mem_set hslot with hold | hnew
  · exact h slot hold
  · subst hnew
    rfl

theorem isComplete_iff_isSome {entry : SignedTurn} :
    entry.isComplete = true ↔
      ∀ index < entry.slots.length, (entry.signatureOf? index).isSome = true := by
  unfold isComplete signatureOf?
  rw [List.all_eq_true, List.forall_mem_iff_forall_getElem]
  constructor
  · intro h index hlt
    rw [List.getElem?_eq_getElem hlt]
    exact h index hlt
  · intro h index hlt
    have hslot := h index hlt
    rw [List.getElem?_eq_getElem hlt] at hslot
    exact hslot

theorem hasSignatures_iff_isSome {entry : SignedTurn} :
    entry.hasSignatures = true ↔ ∃ index, (entry.signatureOf? index).isSome = true := by
  unfold hasSignatures signatureOf?
  rw [List.any_eq_true]
  constructor
  · rintro ⟨slot, hslot, hsome⟩
    obtain ⟨index, hindex⟩ := List.getElem?_of_mem hslot
    refine ⟨index, ?_⟩
    rw [hindex]
    exact hsome
  · rintro ⟨index, hsome⟩
    cases hindex : entry.slots[index]? with
    | none =>
        rw [hindex] at hsome
        cases hsome
    | some slot =>
        rw [hindex] at hsome
        exact ⟨slot, List.mem_of_getElem? hindex, hsome⟩

theorem hasSignatures_ofState (state : State) : (ofState state).hasSignatures = false := by
  simp [hasSignatures, ofState]

theorem hasSignatures_addSignature {entry : SignedTurn} {index : Nat} {sig : Signature}
    (hlt : index < entry.slots.length) : (entry.addSignature index sig).hasSignatures = true := by
  simp only [hasSignatures, addSignature, List.any_eq_true]
  exact ⟨some sig, List.mem_set hlt _, rfl⟩

theorem hasSignatures_of_isComplete {entry : SignedTurn} (hlt : 0 < entry.slots.length)
    (h : entry.isComplete = true) : entry.hasSignatures = true := by
  simp only [isComplete, hasSignatures, List.all_eq_true, List.any_eq_true] at *
  exact ⟨entry.slots[0], List.getElem_mem hlt, h _ (List.getElem_mem hlt)⟩

end SignedTurn

/-! ## The map of signatures

`collect` is the fold behind `SignedTurn.signatures`, from any map on. -/

/-- The signatures of a list of slots, put into a map that may hold others already. -/
def Signatures.collect (found : Signatures) (entries : List (Address × Option Signature)) :
    Signatures :=
  entries.foldl (fun found entry => entry.2.elim found (found.insert entry.1)) found

namespace Signatures

theorem collect_cons (found : Signatures) (account : Address) (slot : Option Signature)
    (entries : List (Address × Option Signature)) :
    collect found ((account, slot) :: entries)
      = collect (slot.elim found (found.insert account)) entries := rfl

/-- An account that no slot belongs to keeps the signature it had. -/
theorem getElem?_collect_of_notMem {account : Address} :
    ∀ {entries : List (Address × Option Signature)} {found : Signatures},
      account ∉ entries.map Prod.fst → (collect found entries)[account]? = found[account]? := by
  intro entries
  induction entries with
  | nil => intro found _; rfl
  | cons entry entries ih =>
      obtain ⟨other, slot⟩ := entry
      intro found h
      rw [List.map_cons, List.mem_cons, not_or] at h
      obtain ⟨hne, hnot⟩ := h
      rw [collect_cons, ih hnot]
      cases slot with
      | none => rfl
      | some sig =>
          rw [Option.elim_some, Std.ExtTreeMap.getElem?_insert, if_neg]
          rw [Std.LawfulEqOrd.compare_eq_iff_eq]
          exact fun heq => hne heq.symm

/-- Where no account has two slots, each account gets what its slot holds. -/
theorem getElem?_collect_of_mem {account : Address} {slot : Option Signature} :
    ∀ {entries : List (Address × Option Signature)} {found : Signatures},
      (entries.map Prod.fst).Nodup → (account, slot) ∈ entries →
      (collect found entries)[account]? = slot.or found[account]? := by
  intro entries
  induction entries with
  | nil => intro found _ h; exact absurd h List.not_mem_nil
  | cons entry entries ih =>
      obtain ⟨other, first⟩ := entry
      intro found hnodup h
      rw [List.map_cons, List.nodup_cons] at hnodup
      obtain ⟨hnot, hrest⟩ := hnodup
      rw [collect_cons]
      rcases List.mem_cons.mp h with heq | hmem
      · obtain ⟨rfl, rfl⟩ := Prod.mk.inj heq
        rw [getElem?_collect_of_notMem hnot]
        cases slot with
        | none => rfl
        | some sig =>
            rw [Option.elim_some, Std.ExtTreeMap.getElem?_insert_self]
            rfl
      · -- The first slot is another account's, so its insertion is not seen here.
        have hne : other ≠ account := by
          intro heq
          exact hnot (heq ▸ List.mem_map.mpr ⟨(account, slot), hmem, rfl⟩)
        rw [ih hrest hmem]
        cases first with
        | none => rfl
        | some sig =>
            rw [Option.elim_some, Std.ExtTreeMap.getElem?_insert, if_neg]
            rw [Std.LawfulEqOrd.compare_eq_iff_eq]
            exact hne

/-- Where no account has two slots or is in the map before, each filled slot is one entry more. -/
theorem size_collect :
    ∀ {entries : List (Address × Option Signature)} {found : Signatures},
      (entries.map Prod.fst).Nodup → (∀ account ∈ entries.map Prod.fst, account ∉ found) →
      (collect found entries).size = found.size + (entries.map Prod.snd).countP Option.isSome := by
  intro entries
  induction entries with
  | nil => intro found _ _; rfl
  | cons entry entries ih =>
      obtain ⟨other, slot⟩ := entry
      intro found hnodup hfresh
      rw [List.map_cons, List.nodup_cons] at hnodup
      obtain ⟨hnot, hrest⟩ := hnodup
      have hother : other ∉ found := hfresh other List.mem_cons_self
      have htail : ∀ account ∈ entries.map Prod.fst, account ∉ found :=
        fun account hmem => hfresh account (List.mem_cons_of_mem _ hmem)
      rw [collect_cons, List.map_cons, List.countP_cons]
      cases slot with
      | none =>
          rw [Option.elim_none, ih hrest htail]
          rfl
      | some sig =>
          have hinsert : ∀ account ∈ entries.map Prod.fst, account ∉ found.insert other sig := by
            intro account hmem hin
            rcases Std.ExtTreeMap.mem_insert.mp hin with heq | hold
            · rw [Std.LawfulEqOrd.compare_eq_iff_eq] at heq
              exact hnot (heq ▸ hmem)
            · exact htail account hmem hold
          have hsize : (found.insert other sig).size = found.size + 1 := by
            rw [Std.ExtTreeMap.size_insert]
            exact if_neg hother
          have hone : (if (some sig).isSome = true then 1 else 0) = 1 := rfl
          rw [Option.elim_some, ih hrest hinsert, hsize, hone]
          omega

end Signatures

/-! ## The two forms of a turn agree -/

namespace SignedTurn

/-- A turn whose slots belong one by one to different accounts. -/
structure Placed (entry : SignedTurn) : Prop where
  /-- There are as many slots as participants. -/
  length_slots : entry.slots.length = entry.state.participants.length
  /-- No participant is listed twice. -/
  nodup : entry.state.participants.Nodup

theorem signatures_eq_collect (entry : SignedTurn) :
    entry.signatures = Signatures.collect ∅ (entry.state.participants.zip entry.slots) := rfl

theorem Placed.map_fst_zip {entry : SignedTurn} (h : entry.Placed) :
    (entry.state.participants.zip entry.slots).map Prod.fst = entry.state.participants :=
  List.map_fst_zip (Nat.le_of_eq h.length_slots.symm)

theorem Placed.map_snd_zip {entry : SignedTurn} (h : entry.Placed) :
    (entry.state.participants.zip entry.slots).map Prod.snd = entry.slots :=
  List.map_snd_zip (Nat.le_of_eq h.length_slots)

/-- The map answers for a participant what the slot at its place answers. -/
theorem getElem?_signatures {entry : SignedTurn} (h : entry.Placed) {index : Nat}
    {account : Address} (haccount : entry.state.participants[index]? = some account) :
    entry.signatures[account]? = entry.signatureOf? index := by
  obtain ⟨hlt, -⟩ := List.getElem?_eq_some_iff.mp haccount
  have hlt : index < entry.slots.length := by rw [h.length_slots]; exact hlt
  have hslot : entry.slots[index]? = some entry.slots[index] := List.getElem?_eq_getElem hlt
  have hmem : (account, entry.slots[index]) ∈ entry.state.participants.zip entry.slots :=
    List.mem_of_getElem? (List.getElem?_zip_eq_some.mpr ⟨haccount, hslot⟩)
  have hnodup : ((entry.state.participants.zip entry.slots).map Prod.fst).Nodup := by
    rw [h.map_fst_zip]
    exact h.nodup
  rw [signatures_eq_collect, Signatures.getElem?_collect_of_mem hnodup hmem,
    Std.ExtTreeMap.getElem?_empty, Option.or_none, signatureOf?, hslot]
  rfl

/-- The map knows no account but the participants. -/
theorem mem_participants_of_mem_signatures {entry : SignedTurn} (h : entry.Placed)
    {account : Address} (hmem : account ∈ entry.signatures) :
    account ∈ entry.state.participants := by
  by_cases hin : account ∈ entry.state.participants
  · exact hin
  · have hnone : entry.signatures[account]? = none := by
      rw [signatures_eq_collect,
        Signatures.getElem?_collect_of_notMem (by rw [h.map_fst_zip]; exact hin),
        Std.ExtTreeMap.getElem?_empty]
    rw [Std.ExtTreeMap.mem_iff_isSome_getElem?, hnone] at hmem
    exact absurd hmem (by simp)

theorem size_signatures {entry : SignedTurn} (h : entry.Placed) :
    entry.signatures.size = entry.slots.countP Option.isSome := by
  have hnodup : ((entry.state.participants.zip entry.slots).map Prod.fst).Nodup := by
    rw [h.map_fst_zip]
    exact h.nodup
  rw [signatures_eq_collect,
    Signatures.size_collect hnodup (fun _ _ => Std.ExtTreeMap.not_mem_empty), h.map_snd_zip,
    Std.ExtTreeMap.size_empty, Nat.zero_add]

/-- A turn is complete exactly when its map has one entry per participant. -/
theorem isComplete_iff_size_signatures {entry : SignedTurn} (h : entry.Placed) :
    entry.isComplete = true ↔ entry.signatures.size = entry.state.participants.length := by
  rw [size_signatures h, ← h.length_slots, List.countP_eq_length, isComplete, List.all_eq_true]

end SignedTurn

end DebtChannel
