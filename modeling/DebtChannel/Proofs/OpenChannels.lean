import DebtChannel.Proofs.FreshDrafts
import DebtChannel.Registry.Operation

/-!
# A registry does not mix up its channels

The id of a channel is worked out once, when the channel is opened, and the registry goes by it ever
after. It does not look whether the channel behind a handle still has that id. The channel does so
by itself: the id is that of the fixed part, which no operation touches (`SameTerms`), and a state is
only signed or handed out with that fixed part, so every state that the channel holds has the same
id.

The rest is about two tables. Handles are never given twice, and the channel behind a handle changes
by the operations on that handle alone (`channel?_step`). An id is in the other table from the time
that a channel with it is opened, or turned away because one is, until it is removed
(`isSome_handle?_step_iff`), and keeps its handle meanwhile.
-/

namespace DebtChannel.Registry

variable {ρ ε : Type} {registry : Registry}

/-! ## The two tables -/

theorem mem_ids_iff {id : Hash} : id ∈ registry.ids ↔ (registry.handle? id).isSome = true := by
  rw [ids, Std.ExtTreeMap.mem_keys, Std.ExtTreeMap.mem_iff_isSome_getElem?, handle?]

/-- A channel is turned away if its id is taken, and opened under the next handle if not. -/
theorem register_cases (registry : Registry) (channel : Channel) :
    ((registry.handle? channel.id).isSome = true ∧
      registry.register channel = .error (.alreadyOpen channel.id)) ∨
    (registry.handle? channel.id = none ∧
      registry.register channel = .ok (registry.channels.length,
        ⟨registry.channels ++ [channel],
          registry.handles.insert channel.id registry.channels.length⟩)) := by
  unfold register
  by_cases hmem : channel.id ∈ registry.handles
  · refine .inl ⟨?_, if_pos hmem⟩
    rwa [Std.ExtTreeMap.mem_iff_isSome_getElem?] at hmem
  · refine .inr ⟨?_, if_neg hmem⟩
    rw [Std.ExtTreeMap.mem_iff_isSome_getElem?, Option.not_isSome_iff_eq_none] at hmem
    exact hmem

/-! ## One operation -/

/-- What an operation does to the handle of an id. -/
theorem handle?_step (operation : Operation ρ ε) (id : Hash) :
    (registry.step operation).after.handle? id = match operation with
      | .register channel =>
          if channel.id = id then (registry.handle? id).or (some registry.channels.length)
          else registry.handle? id
      | .remove other => if other = id then none else registry.handle? id
      | .get _ | .operate _ _ _ => registry.handle? id := by
  cases operation with
  | register channel =>
      rcases registry.register_cases channel with ⟨hsome, hregister⟩ | ⟨hnone, hregister⟩
      · -- The id is taken and keeps its handle.
        obtain ⟨handle, hhandle⟩ := Option.isSome_iff_exists.mp hsome
        simp only [step, hregister]
        split
        · next hid => rw [← hid, hhandle, Option.some_or]
        · rfl
      · simp only [step, hregister, handle?, Std.ExtTreeMap.getElem?_insert,
          Std.LawfulEqOrd.compare_eq_iff_eq]
        split
        · next hid =>
            rw [handle?, hid] at hnone
            rw [hnone, Option.none_or]
        · rfl
  | get other => rfl
  | remove other =>
      simp only [step, remove, handle?, Std.ExtTreeMap.getElem?_erase,
        Std.LawfulEqOrd.compare_eq_iff_eq]
  | operate handle adjudicator operation =>
      simp only [step]
      split <;> rfl

/-- What an operation does to the channel behind a handle. -/
theorem channel?_step {handle : Nat} {channel : Channel}
    (h : registry.channel? handle = some channel) (operation : Operation ρ ε) :
    (registry.step operation).after.channel? handle
      = some (channel.afterAll (channel.run (operation.on? handle).toList)) := by
  have hlt : handle < registry.channels.length := (List.getElem?_eq_some_iff.mp h).1
  cases operation with
  | register other =>
      rcases registry.register_cases other with ⟨-, hregister⟩ | ⟨-, hregister⟩
      · simp only [step, hregister]
        exact h
      · simp only [step, hregister, channel?, List.getElem?_append_left hlt]
        exact h
  | get id | remove id => exact h
  | operate other adjudicator operation =>
      by_cases hother : other = handle
      · subst hother
        rw [Operation.on?, if_pos rfl]
        simp only [step, h]
        exact List.getElem?_set_self hlt
      · rw [Operation.on?, if_neg hother]
        simp only [step]
        split
        · simp only [channel?, set, List.getElem?_set_ne hother]
          exact h
        · exact h

theorem isSome_handle?_step_iff {operation : Operation ρ ε} {id : Hash} :
    ((registry.step operation).after.handle? id).isSome = true ↔
      ((registry.handle? id).isSome = true ∧ operation ≠ .remove id) ∨
        ∃ channel, operation = .register channel ∧ channel.id = id := by
  rw [handle?_step]
  cases operation with
  | register channel => by_cases hid : channel.id = id <;> simp [hid]
  | remove other => by_cases hid : other = id <;> simp [hid]
  | get other | operate handle adjudicator operation => simp

theorem handle?_step_of_ne_remove {operation : Operation ρ ε} {id : Hash} {handle : Nat}
    (h : registry.handle? id = some handle) (hne : operation ≠ .remove id) :
    (registry.step operation).after.handle? id = some handle := by
  rw [handle?_step]
  cases operation with
  | register channel => simp only [h, Option.some_or, ite_self]
  | remove other =>
      have hother : other ≠ id := fun hsame => hne (congrArg _ hsame)
      simp only [if_neg hother, h]
  | get other | operate other adjudicator operation => exact h

/-! ## Many operations -/

section Operations

variable {operations : List (Operation ρ ε)}

theorem afterAll_cons (operation : Operation ρ ε) :
    registry.afterAll (operation :: operations)
      = (registry.step operation).after.afterAll operations := rfl

theorem afterAll_append (earlier later : List (Operation ρ ε)) :
    registry.afterAll (earlier ++ later) = (registry.afterAll earlier).afterAll later :=
  List.foldl_append

/-- The channel behind a handle is what the operations on the handle have made of it. -/
theorem channel?_afterAll {handle : Nat} :
    ∀ {operations : List (Operation ρ ε)} {registry : Registry} {channel : Channel},
      registry.channel? handle = some channel →
      (registry.afterAll operations).channel? handle
        = some (channel.afterAll (channel.run (operations.filterMap (·.on? handle)))) := by
  intro operations
  induction operations with
  | nil => intro registry channel h; exact h
  | cons operation operations ih =>
      intro registry channel h
      rw [afterAll_cons, ih (channel?_step h operation)]
      cases hon : operation.on? handle with
      | none =>
          rw [List.filterMap_cons_none hon]
          rfl
      | some pending =>
          rw [List.filterMap_cons_some hon, Channel.run_cons, Channel.afterAll_cons]
          rfl

theorem handle?_afterAll {id : Hash} {handle : Nat} :
    ∀ {operations : List (Operation ρ ε)} {registry : Registry},
      registry.handle? id = some handle → .remove id ∉ operations →
      (registry.afterAll operations).handle? id = some handle := by
  intro operations
  induction operations with
  | nil => intro registry h _; exact h
  | cons operation operations ih =>
      intro registry h hnot
      rw [List.mem_cons, not_or] at hnot
      exact ih (handle?_step_of_ne_remove h (Ne.symm hnot.1)) hnot.2

/-- An id is registered if it was and has not been removed, or if a channel with it was handed in
and it has not been removed since. -/
theorem isSome_handle?_afterAll_iff {id : Hash} :
    ∀ {operations : List (Operation ρ ε)} {registry : Registry},
      ((registry.afterAll operations).handle? id).isSome = true ↔
        ((registry.handle? id).isSome = true ∧ .remove id ∉ operations) ∨
        ∃ earlier channel later, operations = earlier ++ .register channel :: later ∧
          channel.id = id ∧ .remove id ∉ later := by
  intro operations
  induction operations with
  | nil => intro registry; simp [afterAll]
  | cons operation operations ih =>
      intro registry
      rw [afterAll_cons, ih, isSome_handle?_step_iff]
      constructor
      · rintro (⟨⟨hsome, hne⟩ | ⟨channel, rfl, hid⟩, hnot⟩ |
          ⟨earlier, channel, later, rfl, hid, hnot⟩)
        · exact .inl ⟨hsome, List.not_mem_cons_of_ne_of_not_mem (Ne.symm hne) hnot⟩
        -- The first operation hands the channel in, or it comes among the rest.
        · exact .inr ⟨[], channel, operations, rfl, hid, hnot⟩
        · exact .inr ⟨operation :: earlier, channel, later, rfl, hid, hnot⟩
      · rintro (⟨hsome, hnot⟩ | ⟨earlier, channel, later, hsplit, hid, hnot⟩)
        · rw [List.mem_cons, not_or] at hnot
          exact .inl ⟨.inl ⟨hsome, Ne.symm hnot.1⟩, hnot.2⟩
        · cases earlier with
          | nil =>
              obtain ⟨rfl, rfl⟩ := List.cons.inj hsplit
              exact .inl ⟨.inr ⟨channel, rfl, hid⟩, hnot⟩
          | cons first earlier =>
              obtain ⟨-, rfl⟩ := List.cons.inj hsplit
              exact .inr ⟨earlier, channel, later, rfl, hid, hnot⟩

end Operations

/-! ## Every id finds its channel -/

theorem id_afterAll (channel : Channel) (operations : List (Adjudicator ρ ε × Channel.Operation)) :
    (channel.afterAll (channel.run operations)).id = channel.id := by
  rw [Channel.id, (Channel.sameTerms_afterAll channel operations).fixed_eq, Channel.id]

/-- Behind every handle there is a channel that may exist, and behind that of an id one with the
id. -/
structure Sound (registry : Registry) : Prop where
  reachable : ∀ channel ∈ registry.channels, channel.Reachable
  indexed : ∀ id handle, registry.handle? id = some handle →
    ∃ channel, registry.channel? handle = some channel ∧ channel.id = id

theorem sound_empty : empty.Sound where
  reachable _ hmem := absurd hmem List.not_mem_nil
  indexed id handle h := by
    rw [handle?, empty, Std.ExtTreeMap.getElem?_empty] at h
    cases h

theorem Sound.reachable_step (h : registry.Sound) {operation : Operation ρ ε}
    (hregister : ∀ channel, operation = .register channel → channel.Reachable) :
    ∀ channel ∈ (registry.step operation).after.channels, channel.Reachable := by
  cases operation with
  | register channel =>
      rcases registry.register_cases channel with ⟨-, heq⟩ | ⟨-, heq⟩
      · simp only [step, heq]
        exact h.reachable
      · simp only [step, heq, List.mem_append, List.mem_singleton]
        rintro other (hold | rfl)
        · exact h.reachable other hold
        · exact hregister other rfl
  | get id | remove id => exact h.reachable
  | operate handle adjudicator operation =>
      simp only [step]
      split
      · next channel hchannel =>
          intro other hmem
          rcases List.mem_or_eq_of_mem_set hmem with hold | rfl
          · exact h.reachable other hold
          · exact .step adjudicator operation (h.reachable channel (List.mem_of_getElem? hchannel))
      · exact h.reachable

theorem Sound.indexed_step (h : registry.Sound) {operation : Operation ρ ε} {id : Hash}
    {handle : Nat} (hhandle : (registry.step operation).after.handle? id = some handle) :
    ∃ channel, (registry.step operation).after.channel? handle = some channel ∧
      channel.id = id := by
  have hkept : registry.handle? id = some handle →
      ∃ channel, (registry.step operation).after.channel? handle = some channel ∧
        channel.id = id := by
    intro hold
    obtain ⟨channel, hchannel, hid⟩ := h.indexed id handle hold
    exact ⟨_, channel?_step hchannel operation, (id_afterAll channel _).trans hid⟩
  cases hold : registry.handle? id with
  | some found =>
      by_cases hremove : operation = .remove id
      · rw [handle?_step, hremove] at hhandle
        simp only [if_true] at hhandle
        cases hhandle
      · rw [handle?_step_of_ne_remove hold hremove] at hhandle
        exact hkept (hold.trans hhandle)
  | none =>
      -- An id that was free has the handle that was given last.
      have hsome : ((registry.step operation).after.handle? id).isSome = true := by
        rw [hhandle]
        rfl
      rcases isSome_handle?_step_iff.mp hsome with ⟨hbefore, -⟩ | ⟨channel, rfl, rfl⟩
      · rw [hold] at hbefore
        cases hbefore
      · rcases registry.register_cases channel with ⟨hbefore, -⟩ | ⟨-, hregister⟩
        · rw [hold] at hbefore
          cases hbefore
        · rw [handle?_step, hold] at hhandle
          simp only [if_true, Option.none_or] at hhandle
          obtain rfl := Option.some.inj hhandle
          simp only [step, hregister, channel?]
          exact ⟨channel, List.getElem?_concat_length, rfl⟩

theorem Sound.afterAll : ∀ {operations : List (Operation ρ ε)} {registry : Registry},
    registry.Sound → (∀ channel, .register channel ∈ operations → channel.Reachable) →
    (registry.afterAll operations).Sound := by
  intro operations
  induction operations with
  | nil => intro registry h _; exact h
  | cons operation operations ih =>
      intro registry h hregister
      rw [afterAll_cons]
      refine ih ⟨h.reachable_step fun channel heq => ?_, fun id handle => h.indexed_step⟩
        fun channel hmem => hregister channel (List.mem_cons_of_mem _ hmem)
      exact hregister channel (heq ▸ List.mem_cons_self)

theorem channelId_of_reachable {channel : Channel} (h : channel.Reachable) :
    channel.lastState.channelId = channel.id ∧
      ∀ turn entry, channel.signedTurn? turn = some entry → entry.state.channelId = channel.id :=
  ⟨congrArg FixedPart.channelId h.lastState_fixed, fun turn entry hentry =>
    congrArg FixedPart.channelId (h.sound.entries turn entry hentry).fixed_eq⟩

/-! ## What a registry answers -/

theorem get?_eq_some {id : Hash} {handle : Nat} {channel : Channel}
    (hhandle : registry.handle? id = some handle)
    (hchannel : registry.channel? handle = some channel) : registry.get? id = some channel := by
  rw [get?, hhandle, Option.bind_some, hchannel]

theorem Sound.isSome_get?_iff (h : registry.Sound) {id : Hash} :
    (registry.get? id).isSome = true ↔ id ∈ registry.ids := by
  rw [mem_ids_iff]
  cases hhandle : registry.handle? id with
  | none => simp [get?, hhandle]
  | some handle =>
      obtain ⟨channel, hchannel, -⟩ := h.indexed id handle hhandle
      simp [get?_eq_some hhandle hchannel]

theorem Sound.of_get?_eq_some (h : registry.Sound) {id : Hash} {channel : Channel}
    (hget : registry.get? id = some channel) : channel.id = id ∧ channel.Reachable := by
  obtain ⟨handle, hhandle, hchannel⟩ := Option.bind_eq_some_iff.mp hget
  obtain ⟨found, hfound, hid⟩ := h.indexed id handle hhandle
  obtain rfl := Option.some.inj (hfound.symm.trans hchannel)
  exact ⟨hid, h.reachable found (List.mem_of_getElem? hchannel)⟩

theorem answer_register (registry : Registry) (channel : Channel) :
    ((registry.step (.register channel : Operation ρ ε)).answer
        = .refused (.alreadyOpen channel.id) ↔ channel.id ∈ registry.ids) ∧
    (channel.id ∈ registry.ids →
      (registry.step (.register channel : Operation ρ ε)).after = registry) ∧
    (channel.id ∉ registry.ids →
      (registry.step (.register channel : Operation ρ ε)).answer
        = .opened registry.channels.length) := by
  rw [mem_ids_iff]
  rcases registry.register_cases channel with ⟨hsome, hregister⟩ | ⟨hnone, hregister⟩
  · simp [step, hregister, hsome]
  · simp [step, hregister, hnone]

theorem channel?_of_opened {channel : Channel} {handle : Nat}
    (h : (registry.step (.register channel : Operation ρ ε)).answer = .opened handle) :
    (registry.step (.register channel : Operation ρ ε)).after.handle? channel.id = some handle ∧
      (registry.step (.register channel : Operation ρ ε)).after.channel? handle = some channel := by
  rcases registry.register_cases channel with ⟨-, hregister⟩ | ⟨-, hregister⟩
  · simp only [step, hregister] at h
    cases h
  · simp only [step, hregister] at h ⊢
    obtain rfl := Answer.opened.inj h
    exact ⟨Std.ExtTreeMap.getElem?_insert_self, List.getElem?_concat_length⟩

/-- Whatever is done with a registry and with the channels that it has opened, in any order, it finds
a channel under each of its ids and under no other; the channel has that id, and so have its last
state and all its states on record. A channel is turned away exactly if its id is taken, and then
nothing changes. An opened channel is found under its handle with what all operations on the handle
have made of it, and under its id until that is removed. The ids are those of the channels that were
handed in and have not been removed since, each counted once. -/
theorem registry_keeps_channels_apart (operations : List (Operation ρ ε))
    (h : ∀ channel, .register channel ∈ operations → channel.Reachable) :
    (∀ id, ((empty.afterAll operations).get? id).isSome = true ↔
      id ∈ (empty.afterAll operations).ids) ∧
    (∀ id channel, (empty.afterAll operations).get? id = some channel →
      channel.id = id ∧ channel.lastState.channelId = id ∧
        ∀ turn entry, channel.signedTurn? turn = some entry → entry.state.channelId = id) ∧
    (∀ channel,
      (((empty.afterAll operations).step (.register channel : Operation ρ ε)).answer
          = .refused (.alreadyOpen channel.id) ↔
        channel.id ∈ (empty.afterAll operations).ids) ∧
      (channel.id ∈ (empty.afterAll operations).ids →
        ((empty.afterAll operations).step (.register channel : Operation ρ ε)).after
          = empty.afterAll operations) ∧
      (channel.id ∉ (empty.afterAll operations).ids →
        ∃ handle, ((empty.afterAll operations).step (.register channel : Operation ρ ε)).answer
          = .opened handle)) ∧
    (∀ earlier channel later handle, operations = earlier ++ .register channel :: later →
      ((empty.afterAll earlier).step (.register channel : Operation ρ ε)).answer
        = .opened handle →
      (empty.afterAll operations).channel? handle
        = some (channel.afterAll (channel.run (later.filterMap (·.on? handle)))) ∧
      (.remove channel.id ∉ later →
        (empty.afterAll operations).handle? channel.id = some handle)) ∧
    (∀ id, id ∈ (empty.afterAll operations).ids ↔
      ∃ earlier channel later, operations = earlier ++ .register channel :: later ∧
        channel.id = id ∧ .remove id ∉ later) ∧
    (empty.afterAll operations).ids.Nodup ∧
    (empty.afterAll operations).size = (empty.afterAll operations).ids.length := by
  have hsound := sound_empty.afterAll h
  refine ⟨fun id => hsound.isSome_get?_iff, fun id channel hget => ?_, fun channel => ?_, ?_,
    fun id => ?_, Std.ExtTreeMap.nodup_keys, Std.ExtTreeMap.length_keys.symm⟩
  · obtain ⟨rfl, hreachable⟩ := hsound.of_get?_eq_some hget
    exact ⟨rfl, channelId_of_reachable hreachable⟩
  · obtain ⟨hrefused, hkept, hopened⟩ :=
      answer_register (ρ := ρ) (ε := ε) (empty.afterAll operations) channel
    exact ⟨hrefused, hkept, fun hfree => ⟨_, hopened hfree⟩⟩
  · rintro earlier channel later handle rfl hopened
    obtain ⟨hhandle, hchannel⟩ := channel?_of_opened hopened
    rw [afterAll_append, afterAll_cons]
    exact ⟨channel?_afterAll hchannel, handle?_afterAll hhandle⟩
  · rw [mem_ids_iff, isSome_handle?_afterAll_iff]
    simp [handle?, empty]

open Channel (solo duo soloOpening duoOpening accepting)

/-- Two channels are opened, the first one hands out a turn, and is then opened again. -/
def openedTwice : List (Operation Unit Unit) :=
  [.register solo, .register duo, .operate 0 accepting .proposeState, .register solo]

theorem registry_keeps_solo_apart :
    (∀ channel, .register channel ∈ openedTwice → channel.Reachable) ∧
    (empty.afterAll openedTwice).get? solo.id = some (solo.step accepting .proposeState).after ∧
    ((empty.afterAll openedTwice).step (.register solo : Operation Unit Unit)).answer
      = .refused (.alreadyOpen solo.id) ∧
    duo.id ∈ (empty.afterAll openedTwice).ids := by
  have hreachable : ∀ channel, .register channel ∈ openedTwice → channel.Reachable := by
    intro channel hmem
    simp only [openedTwice, List.mem_cons, Operation.register.injEq, reduceCtorEq,
      List.not_mem_nil, or_false, false_or] at hmem
    rcases hmem with rfl | rfl | rfl
    · exact .create Channel.create_solo
    · exact .create (show Channel.create duoOpening 0 = .ok duo from rfl)
    · exact .create Channel.create_solo
  obtain ⟨-, -, hregister, hopened, hids, -⟩ := registry_keeps_channels_apart openedTwice hreachable
  have hfirst : (empty.step (.register solo : Operation Unit Unit)).answer = .opened 0 := by
    refine (answer_register empty solo).2.2 ?_
    simp [mem_ids_iff, handle?, empty]
  obtain ⟨hchannel, hhandle⟩ := hopened [] solo _ 0 rfl hfirst
  refine ⟨hreachable, get?_eq_some (hhandle (by simp)) hchannel, ?_, ?_⟩
  · exact (hregister solo).1.mpr ((hids solo.id).mpr ⟨[], solo, _, rfl, rfl, by simp⟩)
  · exact (hids duo.id).mpr ⟨[.register solo], duo, _, rfl, rfl, by simp⟩

end DebtChannel.Registry
