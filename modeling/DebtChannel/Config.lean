/-!
# Settings of a channel

A channel has two settings: how many seconds the adjudicator waits for the answer to a challenge,
and whether a new turn may be proposed before everyone signed the one before it. They are read
from a document of any format whose values are those of `Config.Document`. A record names the
settings, a list gives them in order, what is missing keeps its default, and any value of the wrong
kind makes the whole document unreadable.
-/

namespace DebtChannel

/-- What proposing does while the turn before is not signed by everyone. -/
inductive ProposalPolicy where
  /-- The next turn is handed out anyway. Participants who agree on a later turn pass over the
  earlier ones. -/
  | allowOutstanding
  /-- No turn is handed out. -/
  | requireSupported
deriving DecidableEq

/-- The settings of a channel. -/
structure Config where
  /-- Seconds that the adjudicator waits for the answer to a challenge. -/
  challengeDuration : UInt64 := 60
  /-- What proposing does while the turn before is not signed by everyone. -/
  proposalPolicy : ProposalPolicy := .allowOutstanding
deriving DecidableEq

namespace Config

/-- A document that settings can be read from. -/
inductive Document where
  /-- No value. -/
  | null
  /-- A truth value. -/
  | bool (value : Bool)
  /-- A number written without point and exponent. -/
  | integer (value : Int)
  /-- Any other number. -/
  | decimal
  /-- A text. -/
  | text (value : String)
  /-- Values in order. -/
  | list (items : List Document)
  /-- Values by name, each name once. -/
  | record (entries : List (String × Document))

namespace Document

/-- The number of seconds that a value gives. -/
def duration? : Document → Option UInt64
  | integer value =>
      if 0 ≤ value ∧ value.toNat < UInt64.size then some (UInt64.ofNat value.toNat) else none
  | _ => none

/-- The policy of a name. -/
def policyNamed? (name : String) : Option ProposalPolicy :=
  if name = "allow_outstanding" then some .allowOutstanding
  else if name = "require_supported" then some .requireSupported
  else none

/-- The policy that a value gives: its name, or the name over no value. -/
def policy? : Document → Option ProposalPolicy
  | text name => policyNamed? name
  | record [(name, null)] => policyNamed? name
  | _ => none

/-- The setting that a value gives, or the default if there is no value. -/
def settingOr {α : Type} (default : α) (read : Document → Option α) : Option Document → Option α
  | none => some default
  | some value => read value

end Document

/-- The settings that the two values give, those that are there. -/
def ofValues? (duration policy : Option Document) : Option Config := do
  let duration ← Document.settingOr ({} : Config).challengeDuration Document.duration? duration
  let policy ← Document.settingOr ({} : Config).proposalPolicy Document.policy? policy
  some ⟨duration, policy⟩

/-- The settings of a document, if it can be read. -/
def ofDocument? : Document → Option Config
  | .record entries =>
      ofValues? (entries.lookup "challenge_duration") (entries.lookup "proposal_policy")
  | .list [] => ofValues? none none
  | .list [duration] => ofValues? (some duration) none
  | .list [duration, policy] => ofValues? (some duration) (some policy)
  | _ => none

end Config

end DebtChannel
