import DebtChannel.Signature.PrivateKey

/-!
# Signing transactions

Calls to the adjudicator are transactions, signed by the account that sends them. A transactor
holds the key of one account on one chain and refuses to sign for any other account.
-/

namespace DebtChannel

/-- An account that can sign transactions on a chain. -/
structure Transactor where
  /-- The chain that the transactions are for. -/
  chainId : Uint256
  /-- The key of the account. -/
  key : PrivateKey
deriving DecidableEq

namespace Transactor

/-- The transactor of a raw private key. -/
def ofBytes (chainId : Uint256) (key : Bytes) : Except Signature.Error Transactor :=
  (PrivateKey.ofBytes key).map (Transactor.mk chainId)

/-- The account that signs. -/
def address (transactor : Transactor) : Address := transactor.key.address

/-- Why a transaction was not signed. -/
inductive Error where
  /-- The transaction is sent by an account that the key does not control. -/
  | notAuthorized (requested owner : Address)
  /-- No signature came out. -/
  | signature (cause : Signature.Error)
deriving DecidableEq

/-- What the error says to a reader. -/
def Error.message : Error → String
  | notAuthorized requested owner =>
      "not authorized to sign for " ++ requested.display ++ ", key belongs to " ++ owner.display
  | signature cause => cause.message

/-- The signature over the hash of a transaction that `sender` sends. Its last byte is 0 or 1; the
encoding of the transaction adds the offset of its own. -/
def signTransaction (transactor : Transactor) (sender : Address) (hash : Hash) :
    Except Error Signature :=
  if sender = transactor.address then
    match transactor.key.signHash hash with
    | .ok sig => .ok { sig with v := sig.v - 27 }
    | .error cause => .error (.signature cause)
  else .error (.notAuthorized sender transactor.address)

end Transactor

end DebtChannel
