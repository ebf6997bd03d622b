import DebtChannel.Channel.Operation
import DebtChannel.Registry

/-!
# Operations of a registry, one after the other

All that can be done with a registry and with the channels that it has opened, as data. Whoever has
opened or looked up a channel holds its handle, and operates on the channel through that, whether or
not the id is still registered. So the registry and its channels change in turn, in any order.
-/

namespace DebtChannel.Registry

/-- Something that can be done with a registry. -/
inductive Operation (ρ ε : Type) where
  /-- Open a channel. -/
  | register (channel : Channel)
  /-- Look up the channel that is open under an id. -/
  | get (id : Hash)
  /-- Forget an id. -/
  | remove (id : Hash)
  /-- Run an operation of the channel behind a handle, with the answers that the adjudicator gives
  at that time. -/
  | operate (handle : Nat) (adjudicator : Adjudicator ρ ε) (operation : Channel.Operation)

/-- What came of an operation. -/
inductive Answer (ρ ε : Type) where
  /-- The channel was opened. -/
  | opened (handle : Nat)
  /-- The channel was not opened. -/
  | refused (cause : Error)
  /-- The channel that is open under the id, or was until it was forgotten. -/
  | found (handle? : Option Nat)
  /-- What came of the operation of the channel, if there is one behind the handle. -/
  | operated (answer? : Option (Channel.Answer ρ ε))

/-- What an operation comes to. -/
structure Step (ρ ε : Type) where
  /-- What came of it. -/
  answer : Answer ρ ε
  /-- The registry afterwards. -/
  after : Registry

variable {ρ ε : Type}

/-- Runs an operation. -/
def step (registry : Registry) : Operation ρ ε → Step ρ ε
  | .register channel =>
      match registry.register channel with
      | .ok (handle, after) => ⟨.opened handle, after⟩
      | .error cause => ⟨.refused cause, registry⟩
  | .get id => ⟨.found (registry.handle? id), registry⟩
  | .remove id => ⟨.found (registry.handle? id), registry.remove id⟩
  | .operate handle adjudicator operation =>
      match registry.channel? handle with
      | some channel =>
          let step := channel.step adjudicator operation
          ⟨.operated (some step.answer), registry.set handle step.after⟩
      | none => ⟨.operated none, registry⟩

/-- The registry after operations, one after the other. -/
def afterAll (registry : Registry) (operations : List (Operation ρ ε)) : Registry :=
  operations.foldl (fun registry operation => (registry.step operation).after) registry

/-- What an operation runs on the channel behind a handle, if it does. -/
def Operation.on? (handle : Nat) : Operation ρ ε → Option (Adjudicator ρ ε × Channel.Operation)
  | .operate other adjudicator operation =>
      if other = handle then some (adjudicator, operation) else none
  | _ => none

end DebtChannel.Registry
