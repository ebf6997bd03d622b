import DebtChannel.Channel.Basic

/-!
# Open channels

A registry finds open channels by their id. A channel that is opened moves into the registry and is
from then on reached by a handle, so that all who hold the handle see the same channel. Removing an
id only makes the registry forget it: the channel lives on for those who hold its handle, and the id
is free for another channel.
-/

namespace DebtChannel

/-- The channels that were ever opened, and the ids under which they are open. -/
structure Registry where
  /-- All channels, by their handles. -/
  channels : List Channel
  /-- The handle of each id that is open. -/
  handles : Std.ExtTreeMap Hash Nat
deriving DecidableEq

namespace Registry

/-- Why a channel was not opened. -/
inductive Error where
  /-- A channel of that id is open. -/
  | alreadyOpen (id : Hash)
deriving DecidableEq

/-- What the error says to a reader. -/
def Error.message : Error → String
  | alreadyOpen id => "channel " ++ id.display ++ " is already open"

/-- The registry without channels. -/
def empty : Registry := ⟨[], ∅⟩

/-- The handle of a channel that was just opened, and the registry with it. -/
def register (registry : Registry) (channel : Channel) : Except Error (Nat × Registry) :=
  if channel.id ∈ registry.handles then .error (.alreadyOpen channel.id)
  else
    let handle := registry.channels.length
    .ok (handle, ⟨registry.channels ++ [channel], registry.handles.insert channel.id handle⟩)

/-- The handle of the channel that is open under an id. -/
def handle? (registry : Registry) (id : Hash) : Option Nat := registry.handles[id]?

/-- The channel behind a handle. -/
def channel? (registry : Registry) (handle : Nat) : Option Channel := registry.channels[handle]?

/-- The channel that is open under an id. -/
def get? (registry : Registry) (id : Hash) : Option Channel :=
  (registry.handle? id).bind registry.channel?

/-- The registry with another value of the channel behind a handle. -/
def set (registry : Registry) (handle : Nat) (channel : Channel) : Registry :=
  { registry with channels := registry.channels.set handle channel }

/-- The registry with no channel open under an id. -/
def remove (registry : Registry) (id : Hash) : Registry :=
  { registry with handles := registry.handles.erase id }

/-- The ids under which channels are open, in ascending order. -/
def ids (registry : Registry) : List Hash := registry.handles.keys

/-- The number of open channels. -/
def size (registry : Registry) : Nat := registry.handles.size

end Registry

end DebtChannel
