import DebtChannel.Settlement

/-!
# Signed turns

For every turn that somebody signed, a channel keeps the state, its hash and one place for the
signature of each participant. The state before and the state after funding, turns zero and one,
are on record from the start, signed or not; further turns are added when they are first signed.
-/

namespace DebtChannel

/-- A state with the signatures collected for it. -/
structure SignedTurn where
  /-- The state. -/
  state : State
  /-- The hash of the state, which is what is signed. -/
  hash : Hash
  /-- The signature of each participant, as far as it is there. -/
  slots : List (Option Signature)
deriving DecidableEq

namespace SignedTurn

/-- A state that nobody has signed yet. -/
def ofState (state : State) : SignedTurn :=
  ⟨state, state.hash, state.participants.map fun _ => none⟩

/-- The signature of the participant at a place, if it is there. -/
def signatureOf? (turn : SignedTurn) (index : Nat) : Option Signature := (turn.slots[index]?).join

/-- Whether everyone signed. -/
def isComplete (turn : SignedTurn) : Bool := turn.slots.all Option.isSome

/-- Whether anyone signed. -/
def hasSignatures (turn : SignedTurn) : Bool := turn.slots.any Option.isSome

/-- The signatures by account. -/
def signatures (turn : SignedTurn) : Signatures :=
  (turn.state.participants.zip turn.slots).foldl
    (fun found entry => entry.2.elim found (found.insert entry.1)) ∅

/-- The turn with the signature of the participant at a place, instead of any earlier one. -/
def addSignature (turn : SignedTurn) (index : Nat) (sig : Signature) : SignedTurn :=
  { turn with slots := turn.slots.set index (some sig) }

end SignedTurn

/-- The turns on record. -/
structure SignedTurns where
  /-- Turn zero, the state before funding. -/
  preFund : SignedTurn
  /-- Turn one, the state after funding. -/
  postFund : SignedTurn
  /-- The turns above one. -/
  later : Std.ExtTreeMap UInt64 SignedTurn
deriving DecidableEq

namespace SignedTurns

/-- The two turns that are there from the start, which differ in nothing but their number. -/
def ofState (state : State) : SignedTurns where
  preFund := .ofState state
  postFund := .ofState { state with turn := 1 }
  later := ∅

/-- What is on record for a turn. -/
def get? (turns : SignedTurns) (turn : UInt64) : Option SignedTurn :=
  if turn = 0 then some turns.preFund
  else if turn = 1 then some turns.postFund
  else turns.later[turn]?

/-- The record with another entry for a turn. -/
def put (turns : SignedTurns) (turn : UInt64) (entry : SignedTurn) : SignedTurns :=
  if turn = 0 then { turns with preFund := entry }
  else if turn = 1 then { turns with postFund := entry }
  else { turns with later := turns.later.insert turn entry }

/-- Putting an entry changes that turn and no other. -/
theorem get?_put (turns : SignedTurns) (turn other : UInt64) (entry : SignedTurn) :
    (turns.put turn entry).get? other = if turn = other then some entry else turns.get? other := by
  unfold put get?
  by_cases first : turn = 0
  · subst first
    by_cases same : other = 0
    · simp [same]
    · simp [same, Ne.symm same]
  · by_cases second : turn = 1
    · subst second
      by_cases same : other = 1
      · simp [same]
      · simp [same, Ne.symm same]
    · by_cases same : turn = other
      · subst same
        simp [first, second]
      · simp [first, second, same, Std.ExtTreeMap.getElem?_insert]

/-- Of two entries for one turn the later one stays. -/
theorem put_put (turns : SignedTurns) (turn : UInt64) (first second : SignedTurn) :
    (turns.put turn first).put turn second = turns.put turn second := by
  unfold put
  split
  · rfl
  · split
    · rfl
    · have hlater : (turns.later.insert turn first).insert turn second
          = turns.later.insert turn second := by
        apply Std.ExtTreeMap.ext_getElem?
        intro other
        simp only [Std.ExtTreeMap.getElem?_insert]
        split <;> rfl
      rw [hlater]

/-- Whether everyone signed a turn. -/
def isSupported (turns : SignedTurns) (turn : UInt64) : Bool :=
  (turns.get? turn).any SignedTurn.isComplete

end SignedTurns

end DebtChannel
