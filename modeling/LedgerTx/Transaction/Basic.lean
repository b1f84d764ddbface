import LedgerTx.Deadline
import LedgerTx.Key.Signature
import LedgerTx.Operation.Basic

/-!
# Transactions

A transaction is an envelope around a body: the network, the version, the
highest fee, the deadline and, once signed, a signature with its signer.  A
body is one operation or an aggregate of embedded transactions, which have a
network and a version but no fee, deadline or signature of their own.
-/

namespace LedgerTx

structure SignatureInfo where
  signature : Signature
  signer : PublicKey
deriving DecidableEq

/-- A further signer of an aggregate, with a signature of its hash. -/
structure Cosignature where
  signer : PublicKey
  signature : Signature
deriving DecidableEq

mutual

inductive Body where
  | operation (operation : Operation)
  | aggregate (bonded : Bool) (inner : List Embedded) (cosignatures : List Cosignature)

structure Embedded where
  network : Network
  version : UInt8
  body : Body

end

structure Transaction where
  network : Network
  version : UInt8
  maxFee : UInt64
  deadline : Deadline
  signature : Option SignatureInfo
  body : Body

namespace Body

def kind : Body → TransactionKind
  | .operation op => op.kind
  | .aggregate bonded _ _ => if bonded then .aggregateBonded else .aggregateComplete

/-- The further signers of an aggregate; an operation has none. -/
def cosignatures : Body → List Cosignature
  | .operation _ => []
  | .aggregate _ _ cosignatures => cosignatures

def withoutCosignatures : Body → Body
  | .operation op => .operation op
  | .aggregate bonded inner _ => .aggregate bonded inner []

end Body

def versionWord (network : Network) (version : UInt8) : Nat :=
  Coded.code network * 256 + version.toNat

namespace Embedded

def kind (embedded : Embedded) : TransactionKind := embedded.body.kind

def versionWord (embedded : Embedded) : Nat :=
  LedgerTx.versionWord embedded.network embedded.version

end Embedded

namespace Transaction

def kind (tx : Transaction) : TransactionKind := tx.body.kind

def versionWord (tx : Transaction) : Nat :=
  LedgerTx.versionWord tx.network tx.version

def isSigned (tx : Transaction) : Bool := tx.signature.isSome

/-- Whether a key signed a transaction, as its signer or as a further one. -/
def isSignedBy (tx : Transaction) (key : PublicKey) : Bool :=
  tx.signature.any (fun info => info.signer == key)
    || tx.body.cosignatures.any (fun cosignature => cosignature.signer == key)

/-- The transaction as one of an aggregate; an aggregate cannot be embedded. -/
def toEmbedded? (tx : Transaction) : Option Embedded :=
  if tx.kind.isAggregate then none else some ⟨tx.network, tx.version, tx.body⟩

def withoutCosignatures (tx : Transaction) : Transaction :=
  { tx with body := tx.body.withoutCosignatures }

end Transaction

end LedgerTx
