import DebtChannel.Proofs.FreshDrafts

/-!
# Who has signed is all that counts

The order in which keys are used on a state leaves no trace in the channel, and neither does using a
key twice. Two things seem to speak against it: the first signature creates the entry of the turn
and moves the last state, and the one that completes the entry raises the latest supported turn,
which makes signatures over other turns outdated. But all this depends on the entry and on the
channel before, and not on the way from one to the other. `withEntry` makes that visible: it is the
channel with an entry for the turn of a state, and only the last entry that was put there can be
seen. So two signatures at different places commute, because the slots that they fill do, and a
signature that comes again changes nothing.

Two keys that commute and a key that is absorbed when it comes again are all that it takes for a
list of keys to act like the set of its elements. Keys that are none, or belong to strangers, change
nothing at all.

Over a whole run the same is said by looking back. The filled slots of a turn are those of the
accounts whose signatures the run has given out: one step adds the account of the signature that it
answers with, and no step takes one away. Whether everyone signed is a question about slots, and so
it becomes one about the answers of the run.
-/

namespace DebtChannel

/-! ## Folds over the elements of a list -/

section Folds

variable {α β : Type} {f : β → α → β} {xs ys : List α}

/-- Steps that commute, and that are absorbed when they come again. -/
structure ActAsSet (f : β → α → β) (xs : List α) : Prop where
  comm : ∀ x ∈ xs, ∀ y ∈ xs, ∀ b, f (f b x) y = f (f b y) x
  absorbed : ∀ x ∈ xs, ∀ b, f (f b x) x = f b x

namespace ActAsSet

theorem of_subset (h : ActAsSet f xs) (hsubset : ys ⊆ xs) : ActAsSet f ys where
  comm x hx y hy := h.comm x (hsubset hx) y (hsubset hy)
  absorbed x hx := h.absorbed x (hsubset hx)

theorem foldl_absorbs (h : ActAsSet f xs) {x : α} (hmem : x ∈ xs) (b : β) :
    f (xs.foldl f b) x = xs.foldl f b := by
  obtain ⟨front, back, hsplit⟩ := List.append_of_mem hmem
  have hperm : xs.Perm (x :: (front ++ back)) := hsplit ▸ List.perm_middle
  have htwice : (xs ++ [x]).Perm (x :: x :: (front ++ back)) :=
    List.perm_append_comm.trans (hperm.cons x)
  have hsubset : xs ++ [x] ⊆ xs := by simpa using hmem
  have hcomm := (h.of_subset hsubset).comm
  calc f (xs.foldl f b) x
      = (xs ++ [x]).foldl f b := by rw [List.foldl_append]; rfl
    _ = (x :: x :: (front ++ back)).foldl f b := htwice.foldl_eq' hcomm b
    _ = (x :: (front ++ back)).foldl f b := by
        rw [List.foldl_cons, List.foldl_cons, h.absorbed x hmem, List.foldl_cons]
    _ = xs.foldl f b := (hperm.foldl_eq' h.comm b).symm

theorem foldl_append_of_subset (h : ActAsSet f xs) (hsubset : ys ⊆ xs) (b : β) :
    (xs ++ ys).foldl f b = xs.foldl f b := by
  rw [List.foldl_append]
  induction ys with
  | nil => rfl
  | cons y ys ih =>
      obtain ⟨hy, hys⟩ := List.cons_subset.mp hsubset
      rw [List.foldl_cons, h.foldl_absorbs hy]
      exact ih hys

theorem foldl_eq_of_mem_iff (h : ActAsSet f xs) (hsame : ∀ x, x ∈ xs ↔ x ∈ ys) (b : β) :
    xs.foldl f b = ys.foldl f b := by
  have hforth : xs ⊆ ys := fun x => (hsame x).mp
  have hback : ys ⊆ xs := fun x => (hsame x).mpr
  have hcomm := (h.of_subset (List.append_subset.mpr ⟨List.Subset.refl xs, hback⟩)).comm
  calc xs.foldl f b
      = (xs ++ ys).foldl f b := (h.foldl_append_of_subset hback b).symm
    _ = (ys ++ xs).foldl f b := List.perm_append_comm.foldl_eq' hcomm b
    _ = ys.foldl f b := (h.of_subset hback).foldl_append_of_subset hforth b

end ActAsSet

end Folds

/-! ## One entry -/

namespace SignedTurn

theorem addSignature_comm (entry : SignedTurn) {index other : Nat} (h : index ≠ other)
    (sig sig' : Signature) :
    (entry.addSignature index sig).addSignature other sig'
      = (entry.addSignature other sig').addSignature index sig := by
  unfold addSignature
  rw [List.set_comm _ _ h]

theorem addSignature_addSignature (entry : SignedTurn) (index : Nat) (sig : Signature) :
    (entry.addSignature index sig).addSignature index sig = entry.addSignature index sig := by
  unfold addSignature
  rw [List.set_set]

end SignedTurn

/-! ## What a key adds -/

/-- The account that is found again from what raw key bytes sign, if they are a key that signs. -/
def PrivateKey.signerOf? (key : Bytes) (hash : Hash) : Option Address :=
  match ofBytes key with
  | .error _ => none
  | .ok secret => (secret.signMessage hash >>= fun sig => sig.recoverSigner hash).toOption

/-- No two of the keys sign the hash as one of the accounts. Any of them may be no key at all, or
that of a stranger. -/
def KeysApart (accounts : List Address) (hash : Hash) (keys : List Bytes) : Prop :=
  ∀ account ∈ accounts, ∀ key ∈ keys, ∀ other ∈ keys,
    PrivateKey.signerOf? key hash = some account →
    PrivateKey.signerOf? other hash = some account → key = other

theorem PrivateKey.signerOf?_eq {key : Bytes} {hash : Hash} {secret : PrivateKey}
    (hkey : ofBytes key = .ok secret) :
    signerOf? key hash
      = (secret.signMessage hash >>= fun sig => sig.recoverSigner hash).toOption := by
  simp only [signerOf?, hkey]

theorem signerOf?_of_signsAt {accounts : List Address} {hash : Hash} {key : Bytes} {index : Nat}
    (h : SignsAt accounts hash key index) : PrivateKey.signerOf? key hash = accounts[index]? := by
  obtain ⟨secret, hkey, hplace, hrecovers⟩ := h
  rw [hplace, PrivateKey.signerOf?_eq hkey, hrecovers]
  rfl

theorem keysApart_of_nodup {accounts : List Address} {hash : Hash} {keys : List Bytes}
    (h : (keys.filterMap (PrivateKey.signerOf? · hash)).Nodup) : KeysApart accounts hash keys := by
  intro account _ key hkey other hother hsigner hsigner'
  have hpairs : keys.Pairwise fun a b => PrivateKey.signerOf? a hash = some account →
      PrivateKey.signerOf? b hash = some account → a = b :=
    (List.pairwise_filterMap.mp h).imp fun hne ha hb => absurd rfl (hne account ha account hb)
  refine hpairs.forall_of_forall_of_flip (fun _ _ _ _ => rfl) ?_ hkey hother hsigner hsigner'
  exact hpairs.imp fun heq hb ha => (heq ha hb).symm

namespace Channel

variable {ρ ε : Type} {channel : Channel} {state : State}

/-- The signature that a key makes over a state and the place of its signer, if there is one. -/
def contribution? (state : State) (key : Bytes) : Option (Signature × Nat) :=
  match PrivateKey.ofBytes key with
  | .error _ => none
  | .ok secret => (signatureBy state secret).toOption

theorem contribution?_eq_some_iff {key : Bytes} {sig : Signature} {index : Nat} :
    contribution? state key = some (sig, index) ↔
      ∃ secret, PrivateKey.ofBytes key = .ok secret ∧
        signatureBy state secret = .ok (sig, index) := by
  unfold contribution?
  constructor
  · intro h
    split at h
    · cases h
    · next secret hkey => exact ⟨secret, hkey, eq_ok_of_toOption_eq_some h⟩
  · rintro ⟨secret, hkey, hby⟩
    split
    · next hbad =>
        rw [hkey] at hbad
        cases hbad
    · next found hfound =>
        obtain rfl := Except.ok.inj (hkey.symm.trans hfound)
        rw [hby]
        rfl

theorem signerOf?_of_contribution? {key : Bytes} {sig : Signature} {index : Nat}
    (h : contribution? state key = some (sig, index)) :
    ∃ account, PrivateKey.signerOf? key state.hash = some account ∧
      sig.recoverSigner state.hash = .ok account ∧
      state.participantIndex? account = some index := by
  obtain ⟨secret, hkey, hby⟩ := contribution?_eq_some_iff.mp h
  obtain ⟨hmade, account, hrecover, hplace⟩ := signatureBy_ok hby
  refine ⟨account, ?_, hrecover, hplace⟩
  rw [PrivateKey.signerOf?_eq hkey, bind_eq_ok hmade hrecover]
  rfl

/-- The channel after a call that signs a state with a key. A call that fails leaves it as it was. -/
def cosigned (channel : Channel) (state : State) (key : Bytes) : Channel :=
  match (sign state key).outcome channel with
  | .error _ => channel
  | .ok (_, signed) => signed.advance state

theorem cosigned_of_refused {cause : SignError} (h : channel.refusal? state = some cause)
    (key : Bytes) : channel.cosigned state key = channel := by
  unfold cosigned
  cases hsign : (sign state key).outcome channel with
  | error other => rfl
  | ok made =>
      obtain ⟨-, -, -, hnone, -⟩ := sign_eq_ok_iff.mp hsign
      rw [hnone] at h
      cases h

theorem cosigned_of_contribution?_eq_none {key : Bytes} (h : contribution? state key = none) :
    channel.cosigned state key = channel := by
  unfold cosigned
  cases hsign : (sign state key).outcome channel with
  | error other => rfl
  | ok made =>
      obtain ⟨secret, index, hkey, -, hby, -⟩ := sign_eq_ok_iff.mp hsign
      rw [contribution?_eq_some_iff.mpr ⟨secret, hkey, hby⟩] at h
      cases h

theorem cosigned_of_contribution? {key : Bytes} {sig : Signature} {index : Nat}
    (hnone : channel.refusal? state = none) (h : contribution? state key = some (sig, index)) :
    channel.cosigned state key = (channel.record state index sig).advance state := by
  obtain ⟨secret, hkey, hby⟩ := contribution?_eq_some_iff.mp h
  unfold cosigned
  rw [sign_eq_ok_iff.mpr ⟨secret, index, hkey, hnone, hby, rfl⟩]

/-! ## Only the last entry counts -/

theorem latestSupported_withEntry_withEntry (channel : Channel) (state : State)
    {first second : SignedTurn} (h : first.isComplete = true → second.isComplete = true) :
    ((channel.withEntry state first).withEntry state second).latestSupported
      = (channel.withEntry state second).latestSupported := by
  simp only [withEntry]
  by_cases hbelow : channel.latestSupported.all (· < state.turn) = true
  · by_cases hfirst : first.isComplete = true
    · simp [hbelow, hfirst, h hfirst]
    · simp [hbelow, hfirst]
  · simp [hbelow]

theorem withEntry_withEntry (channel : Channel) (state : State) {first second : SignedTurn}
    (h : first.isComplete = true → second.isComplete = true) :
    (channel.withEntry state first).withEntry state second = channel.withEntry state second := by
  have hlatest := latestSupported_withEntry_withEntry channel state h
  have hturns : ((channel.withEntry state first).withEntry state second).turns
      = (channel.withEntry state second).turns := SignedTurns.put_put _ _ _ _
  unfold withEntry at *
  simp only [] at hlatest hturns ⊢
  rw [hlatest, hturns]

theorem advance_withEntry (channel : Channel) (state : State) (entry : SignedTurn) :
    (channel.withEntry state entry).advance state = (channel.advance state).withEntry state entry := by
  unfold advance withEntry
  simp only []
  split <;> rfl

theorem advance_advance (channel : Channel) (state : State) :
    (channel.advance state).advance state = channel.advance state := by
  rw [advance, if_pos (lastState_advance channel state).symm]

theorem record_advance_twice (channel : Channel) (state : State) (index other : Nat)
    (sig sig' : Signature) :
    (((channel.record state index sig).advance state).record state other sig').advance state
      = (channel.advance state).withEntry state
          (((channel.entryFor state).addSignature index sig).addSignature other sig') := by
  have hentry := entryFor_of_signedTurn? (signedTurn?_record_advance channel state index sig)
  rw [record, hentry, record, advance_withEntry,
    advance_withEntry, advance_withEntry, advance_advance,
    withEntry_withEntry _ _ SignedTurn.isComplete_addSignature]

/-! ## Keys commute and are absorbed -/

theorem refusal?_cosigned {key : Bytes} (hnone : channel.refusal? state = none) :
    (channel.cosigned state key).refusal? state = none := by
  cases hgives : contribution? state key with
  | none =>
      rw [cosigned_of_contribution?_eq_none hgives]
      exact hnone
  | some made =>
      obtain ⟨sig, index⟩ := made
      obtain ⟨account, -, hrecover, hplace⟩ := signerOf?_of_contribution? hgives
      have hadmits : channel.Admits state index sig :=
        admits_iff.mpr ⟨hnone, account, hrecover, hplace⟩
      rw [cosigned_of_contribution? hnone hgives]
      exact hadmits.refusal?_record_advance

theorem cosigned_cosigned (channel : Channel) (state : State) (key : Bytes) :
    (channel.cosigned state key).cosigned state key = channel.cosigned state key := by
  cases hrefusal : channel.refusal? state with
  | some cause => rw [cosigned_of_refused hrefusal, cosigned_of_refused hrefusal]
  | none =>
      cases hgives : contribution? state key with
      | none =>
          rw [cosigned_of_contribution?_eq_none hgives, cosigned_of_contribution?_eq_none hgives]
      | some made =>
          obtain ⟨sig, index⟩ := made
          rw [cosigned_of_contribution? (refusal?_cosigned hrefusal) hgives,
            cosigned_of_contribution? hrefusal hgives, record_advance_twice,
            SignedTurn.addSignature_addSignature, record, advance_withEntry]

theorem key_eq_of_place {keys : List Bytes}
    (h : KeysApart state.participants state.hash keys) {key other : Bytes} (hkey : key ∈ keys)
    (hother : other ∈ keys) {sig sig' : Signature} {index : Nat}
    (hgives : contribution? state key = some (sig, index))
    (hgives' : contribution? state other = some (sig', index)) : key = other := by
  obtain ⟨account, hsigner, -, hplace⟩ := signerOf?_of_contribution? hgives
  obtain ⟨account', hsigner', -, hplace'⟩ := signerOf?_of_contribution? hgives'
  have hat := getElem?_of_participantIndex? hplace
  obtain rfl := Option.some.inj (hat.symm.trans (getElem?_of_participantIndex? hplace'))
  exact h account (List.mem_of_getElem? hat) key hkey other hother hsigner hsigner'

theorem cosigned_comm {keys : List Bytes} (h : KeysApart state.participants state.hash keys)
    {key other : Bytes} (hkey : key ∈ keys) (hother : other ∈ keys) (channel : Channel) :
    (channel.cosigned state key).cosigned state other
      = (channel.cosigned state other).cosigned state key := by
  cases hrefusal : channel.refusal? state with
  | some cause =>
      rw [cosigned_of_refused hrefusal, cosigned_of_refused hrefusal, cosigned_of_refused hrefusal]
  | none =>
      cases hgives : contribution? state key with
      | none =>
          rw [cosigned_of_contribution?_eq_none hgives, cosigned_of_contribution?_eq_none hgives]
      | some made =>
          cases hgives' : contribution? state other with
          | none =>
              rw [cosigned_of_contribution?_eq_none hgives',
                cosigned_of_contribution?_eq_none hgives']
          | some made' =>
              obtain ⟨sig, index⟩ := made
              obtain ⟨sig', index'⟩ := made'
              by_cases hplace : index = index'
              · subst hplace
                rw [key_eq_of_place h hkey hother hgives hgives']
              · rw [cosigned_of_contribution? (refusal?_cosigned hrefusal) hgives',
                  cosigned_of_contribution? hrefusal hgives,
                  cosigned_of_contribution? (refusal?_cosigned hrefusal) hgives,
                  cosigned_of_contribution? hrefusal hgives', record_advance_twice,
                  record_advance_twice, SignedTurn.addSignature_comm _ hplace]

theorem actAsSet_cosigned {keys : List Bytes}
    (h : KeysApart state.participants state.hash keys) :
    ActAsSet (fun channel key => cosigned channel state key) keys where
  comm _ hkey _ hother := cosigned_comm h hkey hother
  absorbed key _ found := cosigned_cosigned found state key

/-! ## Lists of keys -/

theorem after_step_signState (channel : Channel) (adjudicator : Adjudicator ρ ε) (draft : Draft)
    (key : Bytes) :
    (channel.step adjudicator (.signState draft key)).after = channel.cosigned draft.state key := by
  unfold cosigned
  cases hsign : (sign draft.state key).outcome channel with
  | error cause => rw [step_signState_of_error adjudicator hsign]
  | ok made =>
      obtain ⟨sig, signed⟩ := made
      rw [step_signState_of_ok adjudicator hsign]

theorem afterAll_signings (adjudicator : Adjudicator ρ ε) (draft : Draft) (keys : List Bytes) :
    ∀ channel : Channel, channel.afterAll (channel.run (signings adjudicator draft keys))
      = keys.foldl (·.cosigned draft.state) channel := by
  induction keys with
  | nil => exact fun _ => rfl
  | cons key keys ih =>
      intro channel
      rw [signings, List.map_cons, run_cons, afterAll_cons, List.foldl_cons, ← after_step_signState,
        ← ih]
      rfl

theorem foldl_cosigned_of_refused {cause : SignError} (h : channel.refusal? state = some cause)
    (keys : List Bytes) : keys.foldl (·.cosigned state) channel = channel := by
  induction keys with
  | nil => rfl
  | cons key keys ih => rw [List.foldl_cons, cosigned_of_refused h, ih]

/-- Which keys are used on a draft decides what becomes of the channel, and neither the order in
which they are used nor how often. -/
theorem afterAll_signings_eq (channel : Channel) (adjudicator adjudicator' : Adjudicator ρ ε)
    (draft : Draft) {keys others : List Bytes} (hsame : ∀ key, key ∈ keys ↔ key ∈ others)
    (hkeys : KeysApart channel.fixed.participants draft.state.hash keys) :
    channel.afterAll (channel.run (signings adjudicator draft keys))
      = channel.afterAll (channel.run (signings adjudicator' draft others)) := by
  rw [afterAll_signings, afterAll_signings]
  cases hrefusal : channel.refusal? draft.state with
  | some cause => rw [foldl_cosigned_of_refused hrefusal, foldl_cosigned_of_refused hrefusal]
  | none =>
      have hfixed := (refusal?_eq_none_iff.mp hrefusal).1
      rw [← hfixed] at hkeys
      exact (actAsSet_cosigned hkeys).foldl_eq_of_mem_iff hsame channel

/-! ## Who has signed, by the record and by the answers -/

/-- The slot of an account is filled for a turn. -/
def HasSigned (channel : Channel) (turn : UInt64) (account : Address) : Prop :=
  ∃ index entry, channel.fixed.participants[index]? = some account ∧
    channel.signedTurn? turn = some entry ∧ (entry.signatureOf? index).isSome

/-- The step gave out a signature of an account over a state of a turn. -/
def Step.SignedBy (step : Step ρ ε) (turn : UInt64) (account : Address) : Prop :=
  ∃ state sig, step.answer = .signed state sig ∧ state.turn = turn ∧
    sig.recoverSigner state.hash = .ok account

theorem Sound.isSupported_iff_hasSigned (h : channel.Sound) (turn : UInt64) :
    channel.isSupported turn = true ↔
      ∀ account ∈ channel.fixed.participants, channel.HasSigned turn account := by
  rw [isSupported_eq_any]
  constructor
  · intro hsupported account haccount
    obtain ⟨entry, hentry, hcomplete⟩ := Option.any_eq_true _ _ |>.mp hsupported
    obtain ⟨index, hplace⟩ := List.mem_iff_getElem?.mp haccount
    obtain ⟨hlt, -⟩ := List.getElem?_eq_some_iff.mp hplace
    rw [← (h.entries turn entry hentry).length_slots] at hlt
    exact ⟨index, entry, hplace, hentry, SignedTurn.isComplete_iff_isSome.mp hcomplete index hlt⟩
  · intro hall
    obtain ⟨first, hfirst⟩ := List.exists_mem_of_ne_nil _ h.nonempty
    obtain ⟨-, entry, -, hentry, -⟩ := hall first hfirst
    rw [hentry, Option.any_some, SignedTurn.isComplete_iff_isSome,
      (h.entries turn entry hentry).length_slots]
    intro index hlt
    obtain ⟨index', entry', hplace, hentry', hslot⟩ := hall _ (List.getElem_mem hlt)
    obtain rfl := Option.some.inj (hentry.symm.trans hentry')
    rw [← List.getElem?_eq_getElem hlt] at hplace
    rwa [← (List.getElem?_inj hlt h.nodup).mp hplace.symm] at hslot

theorem Sound.hasSigned_record {index : Nat} {sig : Signature} (h : channel.Sound)
    (hadmits : channel.Admits state index sig) (turn : UInt64) (account : Address) :
    (channel.record state index sig).HasSigned turn account ↔
      channel.HasSigned turn account ∨
        (state.turn = turn ∧ sig.recoverSigner state.hash = .ok account) := by
  obtain ⟨signer, hrecover, hplace⟩ := hadmits.signed
  have hat : channel.fixed.participants[index]? = some signer := by
    rw [← hadmits.fixed_eq]
    exact getElem?_of_participantIndex? hplace
  constructor
  · rintro ⟨slot, entry, haccount, hentry, hslot⟩
    rcases signedTurn?_record_cases hentry with ⟨hturn, rfl⟩ | hold
    · rw [SignedTurn.signatureOf?_addSignature (h.index_lt_slots hadmits)] at hslot
      split at hslot
      · next hsame =>
          subst hsame
          obtain rfl := Option.some.inj (hat.symm.trans haccount)
          exact .inr ⟨hturn.symm, hrecover⟩
      · -- A slot that was filled before belongs to an entry that was on record.
        cases hbefore : channel.signedTurn? state.turn with
        | none =>
            rw [Channel.entryFor, hbefore, Option.getD_none, SignedTurn.signatureOf?_ofState] at hslot
            cases hslot
        | some entry =>
            rw [entryFor_of_signedTurn? hbefore] at hslot
            exact .inl ⟨slot, entry, haccount, hturn ▸ hbefore, hslot⟩
    · exact .inl ⟨slot, entry, haccount, hold, hslot⟩
  · rintro (⟨slot, entry, haccount, hentry, hslot⟩ | ⟨rfl, hsigner⟩)
    · obtain ⟨kept, hkept, -, -, hslots⟩ :=
        (keeps_record channel state index sig).entries turn entry hentry
      exact ⟨slot, kept, haccount, hkept, hslots slot hslot⟩
    · obtain rfl := Except.ok.inj (hrecover.symm.trans hsigner)
      obtain ⟨entry, hentry, -, hslot⟩ := h.recorded hadmits
      exact ⟨index, entry, hat, hentry, by rw [hslot]; rfl⟩

theorem hasSigned_of_eq {other : Channel} (hfixed : other.fixed = channel.fixed)
    (hturns : other.turns = channel.turns) (turn : UInt64) (account : Address) :
    other.HasSigned turn account ↔ channel.HasSigned turn account := by
  unfold HasSigned signedTurn?
  rw [hfixed, hturns]

/-- A step adds the account of the signature that it answers with, and no other. -/
theorem Sound.hasSigned_step {step : Step ρ ε} (h : step.before.Sound)
    (heffect : Effect step.before step.answer step.after) (turn : UInt64) (account : Address) :
    step.after.HasSigned turn account ↔
      step.before.HasSigned turn account ∨ step.SignedBy turn account := by
  have hfixed := heffect.sameTerms.fixed_eq
  rcases heffect.turns_cases with
    ⟨hturns, -, hnot⟩ | ⟨state, index, sig, hanswer, hadmits, hturns, -⟩
  · have hnone : ¬ step.SignedBy turn account := fun ⟨state, sig, hanswer, _⟩ =>
      hnot state sig hanswer
    rw [hasSigned_of_eq hfixed hturns, or_iff_left hnone]
  · have hfixed : step.after.fixed = (step.before.record state index sig).fixed := hfixed
    rw [hasSigned_of_eq hfixed hturns, h.hasSigned_record hadmits]
    refine or_congr_right ⟨fun ⟨hturn, hsigner⟩ => ⟨state, sig, hanswer, hturn, hsigner⟩, ?_⟩
    rintro ⟨signed, made, hsame, hturn, hsigner⟩
    obtain ⟨rfl, rfl⟩ := Answer.signed.inj (hsame.symm.trans hanswer)
    exact ⟨hturn, hsigner⟩

theorem Sound.signedBy_step (h : channel.Sound) (adjudicator : Adjudicator ρ ε) {draft : Draft}
    {key : Bytes} {index : Nat} {account : Address}
    (hnone : channel.refusal? draft.state = none)
    (hsigns : SignsAt channel.fixed.participants draft.state.hash key index)
    (haccount : channel.fixed.participants[index]? = some account) :
    (channel.step adjudicator (.signState draft key)).SignedBy draft.state.turn account := by
  obtain ⟨sig, hadmits, hsign⟩ := h.exists_sign_eq_ok hnone hsigns
  obtain ⟨signer, hrecover, hplace⟩ := hadmits.signed
  have hat := getElem?_of_participantIndex? hplace
  rw [show draft.state.participants = channel.fixed.participants by rw [← hadmits.fixed_eq],
    haccount] at hat
  obtain rfl := Option.some.inj hat
  rw [step_signState_of_ok adjudicator hsign]
  exact ⟨draft.state, sig, rfl, rfl, hrecover⟩

section Histories

variable {opening : Opening} {partIndex : UInt64} {config : Config}
  {operations : List (Adjudicator ρ ε × Operation)}

theorem hasSigned_create_iff (h : create opening partIndex config = .ok channel) (turn : UInt64)
    (account : Address) :
    channel.HasSigned turn account
      ↔ ∃ signing ∈ ([] : List (Step ρ ε)), signing.SignedBy turn account := by
  refine iff_of_false ?_ ?_
  · rintro ⟨index, entry, -, hentry, hslot⟩
    obtain ⟨-, -, rfl⟩ := create_ok h
    rcases signedTurn?_ofOpening hentry with ⟨-, rfl⟩ | ⟨-, rfl⟩ <;>
      simp [SignedTurn.signatureOf?_ofState] at hslot
  · rintro ⟨signing, hmem, -⟩
    exact List.not_mem_nil hmem

/-- At any time of a run those have signed who signed in one of the steps so far. -/
theorem hasSigned_iff_of_history (h : create opening partIndex config = .ok channel)
    (turn : UInt64) (account : Address) {earlier later : List (Step ρ ε)} {step : Step ρ ε}
    (hrun : channel.run operations = earlier ++ step :: later) :
    (step.before.HasSigned turn account ↔ ∃ signing ∈ earlier, signing.SignedBy turn account) ∧
      (step.after.HasSigned turn account ↔
        ∃ signing ∈ earlier ++ [step], signing.SignedBy turn account) := by
  refine forall_history_of_kept
    (P := fun steps found => found.HasSigned turn account ↔
      ∃ signing ∈ steps, signing.SignedBy turn account)
    (hasSigned_create_iff h turn account) ?_ earlier step later hrun
  intro earlier step later hrun hbefore
  have hmem : step ∈ channel.run operations := hrun ▸ List.mem_append_cons_self
  rw [(reachable_of_mem_run (.create h) hmem).1.sound.hasSigned_step (effect_of_mem_run hmem),
    hbefore]
  simp only [List.mem_append, List.mem_singleton, or_and_right, exists_or, exists_eq_left]

theorem hasSigned_afterAll_iff (h : create opening partIndex config = .ok channel)
    (turn : UInt64) (account : Address) :
    (channel.afterAll (channel.run operations)).HasSigned turn account ↔
      ∃ signing ∈ channel.run operations, signing.SignedBy turn account := by
  rcases List.eq_nil_or_concat (channel.run operations) with hnil | ⟨earlier, last, hrun⟩
  · rw [hnil]
    exact hasSigned_create_iff h turn account
  · rw [List.concat_eq_append] at hrun
    have hend : channel.afterAll (channel.run operations) = last.after := by
      rw [hrun, afterAll, List.getLast?_concat]
      rfl
    rw [hend, (hasSigned_iff_of_history h turn account hrun).2, ← hrun]

theorem isSupported_after_of_signed_again (h : create opening partIndex config = .ok channel)
    {earlier later : List (Step ρ ε)} {step : Step ρ ε}
    (hrun : channel.run operations = earlier ++ step :: later) {turn : UInt64} {account : Address}
    (hagain : step.SignedBy turn account)
    (hfirst : ∃ signing ∈ earlier, signing.SignedBy turn account) (other : UInt64) :
    step.after.isSupported other = step.before.isSupported other := by
  have hmem : step ∈ channel.run operations := hrun ▸ List.mem_append_cons_self
  obtain ⟨hbefore, hafter⟩ := reachable_of_mem_run (.create h) hmem
  have heffect := effect_of_mem_run hmem
  have hold := (hasSigned_iff_of_history h turn account hrun).1.mpr hfirst
  -- The step answers with one signature, and its account has signed before.
  have hnothing : ∀ found, step.SignedBy other found → step.before.HasSigned other found := by
    rintro found ⟨state, sig, hanswer, rfl, hsigner⟩
    obtain ⟨signed, made, hsame, rfl, hsigner'⟩ := hagain
    obtain ⟨rfl, rfl⟩ := Answer.signed.inj (hanswer.symm.trans hsame)
    obtain rfl := Except.ok.inj (hsigner.symm.trans hsigner')
    exact hold
  rw [Bool.eq_iff_iff, hafter.sound.isSupported_iff_hasSigned,
    hbefore.sound.isSupported_iff_hasSigned, heffect.sameTerms.fixed_eq]
  refine forall₂_congr fun found _ => ?_
  rw [hbefore.sound.hasSigned_step heffect, or_iff_left_of_imp (hnothing found)]

/-- Whether a turn is complete depends on who has signed it and on nothing else. Two lists of keys
with the same elements, used on a draft one after the other, end in the same channel from any
channel, as long as no two of the keys sign as one participant; keys that are none and keys of
strangers may be among them. At the end of a run a turn is supported exactly if for each participant
a step has given out a signature over a state of that turn that leads to the participant, and who
signs a turn again changes nothing about which turns are supported. -/
theorem completeness_depends_on_who_signed (h : create opening partIndex config = .ok channel)
    (operations : List (Adjudicator ρ ε × Operation)) :
    (∀ (found : Channel) (draft : Draft) (keys others : List Bytes)
      (adjudicator adjudicator' : Adjudicator ρ ε), (∀ key, key ∈ keys ↔ key ∈ others) →
      KeysApart found.fixed.participants draft.state.hash keys →
      found.afterAll (found.run (signings adjudicator draft keys))
        = found.afterAll (found.run (signings adjudicator' draft others))) ∧
    (∀ turn, (channel.afterAll (channel.run operations)).isSupported turn = true ↔
      ∀ participant ∈ channel.participants,
        ∃ step ∈ channel.run operations, step.SignedBy turn participant.address) ∧
    (∀ earlier step later, channel.run operations = earlier ++ step :: later →
      ∀ turn account, step.SignedBy turn account →
        (∃ signing ∈ earlier, signing.SignedBy turn account) →
        ∀ other, step.after.isSupported other = step.before.isSupported other) := by
  refine ⟨fun found draft keys others adjudicator adjudicator' hsame hkeys =>
      afterAll_signings_eq found adjudicator adjudicator' draft hsame hkeys, fun turn => ?_,
    fun earlier step later hrun turn account hagain hfirst other =>
      isSupported_after_of_signed_again h hrun hagain hfirst other⟩
  have hreached : Reachable (channel.afterAll (channel.run operations)) :=
    Reachable.afterAll (.create h) operations
  rw [hreached.sound.isSupported_iff_hasSigned, (sameTerms_afterAll channel operations).fixed_eq,
    ← (sound_create h).accounts, List.forall_mem_map]
  refine forall₂_congr fun participant _ => ?_
  exact hasSigned_afterAll_iff h turn participant.address

end Histories

/-! ## Two members, one of whom signs twice -/

/-- The second member signs what is owed, then the first one, then the second one again. -/
def duoSignings : List (Adjudicator Unit Unit × Operation) :=
  (accepting, .proposeState) :: (accepting, .proposeState)
    :: signings accepting (duoDraft.afterAll duoChanges) [duoKey, soloKey, duoKey]

def duoFirst : Step Unit Unit :=
  duoProposing.after.step accepting (.signState (duoDraft.afterAll duoChanges) duoKey)

def duoSecond : Step Unit Unit :=
  duoFirst.after.step accepting (.signState (duoDraft.afterAll duoChanges) soloKey)

def duoAgain : Step Unit Unit :=
  duoSecond.after.step accepting (.signState (duoDraft.afterAll duoChanges) duoKey)

theorem run_duoSignings :
    duo.run duoSignings
      = [duo.step accepting .proposeState, duoProposing, duoFirst, duoSecond] ++ [duoAgain] := rfl

theorem signsAt_duo {key : Bytes} (hkey : key ∈ [duoKey, soloKey]) {index : Nat}
    (howner : duoOpening.state.participants[index]? = PrivateKey.ownerOf? key) :
    SignsAt duoOpening.state.participants (duoDraft.afterAll duoChanges).state.hash key index := by
  obtain ⟨_, secret, hsecret, -, hrecovers⟩ := signingKeys_duo.signsAt hkey
  exact ⟨secret, hsecret, howner.trans (PrivateKey.ownerOf?_eq_some_iff.mpr ⟨secret, hsecret, rfl⟩),
    hrecovers⟩

theorem signedBy_duo (h : Reachable channel) (hterms : SameTerms channel duo)
    (hnone : channel.refusal? (duoDraft.afterAll duoChanges).state = none) {key : Bytes}
    (hkey : key ∈ [duoKey, soloKey]) {index : Nat} {account : Address}
    (howner : PrivateKey.ownerOf? key = some account)
    (haccount : duoOpening.state.participants[index]? = some account) :
    let step := channel.step accepting (.signState (duoDraft.afterAll duoChanges) key)
    step.SignedBy 2 account ∧ Reachable step.after ∧ SameTerms step.after duo ∧
      step.after.refusal? (duoDraft.afterAll duoChanges).state = none := by
  have hfixed : channel.fixed.participants = duoOpening.state.participants := by
    rw [hterms.fixed_eq]
    rfl
  have hsigns := signsAt_duo hkey (haccount.trans howner.symm)
  rw [← hfixed] at hsigns haccount
  refine ⟨h.sound.signedBy_step accepting hnone hsigns haccount, h.step _ _,
    (step_effect channel _ _).sameTerms.trans hterms, ?_⟩
  rw [after_step_signState]
  exact refusal?_cosigned hnone

theorem members_duo :
    ∃ first second, duoOpening.state.participants = [first, second] ∧ first ≠ second ∧
      PrivateKey.ownerOf? soloKey = some first ∧ PrivateKey.ownerOf? duoKey = some second := by
  have howners := owners_duo
  simp only [duoOpening, soloOpening, List.map_cons, List.map_nil, List.cons_append,
    List.nil_append, List.reverse_cons, List.reverse_nil, List.cons.injEq] at howners
  exact ⟨_, _, rfl, by decide, howners.2.1, howners.1⟩

theorem keysApart_duo :
    KeysApart duoProposing.after.fixed.participants (duoDraft.afterAll duoChanges).state.hash
      [duoKey, soloKey, []] := by
  obtain ⟨first, second, hmembers, hne, hsolo, hduo⟩ := members_duo
  have hfirst : duoOpening.state.participants[0]? = some first := by rw [hmembers]; rfl
  have hsecond : duoOpening.state.participants[1]? = some second := by rw [hmembers]; rfl
  have hsignsFirst := signerOf?_of_signsAt (signsAt_duo (by simp) (hfirst.trans hsolo.symm))
  have hsignsSecond := signerOf?_of_signsAt (signsAt_duo (by simp) (hsecond.trans hduo.symm))
  -- Nothing of the signers but who they are may be seen, or the kernel would work them out.
  have hfound : ∀ signer : Bytes → Option Address, signer duoKey = some second →
      signer soloKey = some first → signer [] = none →
      [duoKey, soloKey, []].filterMap signer = [second, first] := by
    intro signer hduo hsolo hnone
    simp only [List.filterMap_cons, hduo, hsolo, hnone, List.filterMap_nil]
  refine keysApart_of_nodup ?_
  rw [hfound (PrivateKey.signerOf? · (duoDraft.afterAll duoChanges).state.hash)
    (hsignsSecond.trans hsecond) (hsignsFirst.trans hfirst) rfl]
  simpa using hne.symm

/-- The two members sign what is owed, and one of them signs twice. Bytes that are no key change
nothing. -/
theorem duo_depends_on_who_signed :
    create duoOpening 0 = .ok duo ∧
    KeysApart duoProposing.after.fixed.participants (duoDraft.afterAll duoChanges).state.hash
      [duoKey, soloKey, []] ∧
    duoProposing.after.afterAll (duoProposing.after.run
        (signings accepting (duoDraft.afterAll duoChanges) [duoKey, soloKey, []]))
      = duoProposing.after.afterAll (duoProposing.after.run
          (signings accepting (duoDraft.afterAll duoChanges) [soloKey, [], duoKey, soloKey])) ∧
    (duo.afterAll (duo.run duoSignings)).isSupported 2 = true ∧
    ∃ account, duoFirst.SignedBy 2 account ∧ duoAgain.SignedBy 2 account ∧
      ∀ turn, duoAgain.after.isSupported turn = duoAgain.before.isSupported turn := by
  have hcreate : create duoOpening 0 = .ok duo := rfl
  have hproposing : Reachable duoProposing.after := .step _ _ (.step _ _ (.create hcreate))
  have hterms : SameTerms duoProposing.after duo := ⟨rfl, rfl, rfl, rfl, rfl⟩
  have hnone : duoProposing.after.refusal? (duoDraft.afterAll duoChanges).state = none := by
    decide +kernel
  obtain ⟨first, second, hmembers, -, hsolo, hduo⟩ := members_duo
  have hfirst : duoOpening.state.participants[0]? = some first := by rw [hmembers]; rfl
  have hsecond : duoOpening.state.participants[1]? = some second := by rw [hmembers]; rfl
  obtain ⟨hsigned, hreached, hterms, hnone⟩ :=
    signedBy_duo hproposing hterms hnone (by simp) hduo hsecond
  obtain ⟨hother, hreached, hterms, hnone⟩ :=
    signedBy_duo hreached hterms hnone (by simp) hsolo hfirst
  obtain ⟨hagain, -⟩ := signedBy_duo hreached hterms hnone (by simp) hduo hsecond
  obtain ⟨hsame, hsupported, hkept⟩ := completeness_depends_on_who_signed hcreate duoSignings
  have hkept := hkept _ _ _ run_duoSignings 2 second hagain ⟨duoFirst, by simp, hsigned⟩
  refine ⟨hcreate, keysApart_duo, hsame _ _ _ _ accepting accepting (by grind) keysApart_duo, ?_,
    second, hsigned, hagain, hkept⟩
  rw [hsupported, ← List.forall_mem_map (P := fun account =>
    ∃ step ∈ duo.run duoSignings, step.SignedBy 2 account), (sound_create hcreate).accounts,
    run_duoSignings, show duo.fixed.participants = [first, second] from hmembers,
    List.forall_mem_cons, List.forall_mem_singleton]
  exact ⟨⟨duoSecond, by simp, hother⟩, duoFirst, by simp, hsigned⟩

end Channel

end DebtChannel
