import LedgerTx.Hash.Commitment
import LedgerTx.Layout.Schema
import LedgerTx.Mosaic
import LedgerTx.Operation.Content

/-!
# Locks

Funds are locked as the deposit for a bonded aggregate, or for a recipient
under a secret; a proof that hashes to the secret releases them.
-/

namespace LedgerTx

open Layout (FieldSet Value Schema FieldSpec)

/-- The hash that identifies a signed transaction. -/
abbrev TransactionHash := Block 32

/-- Locks a deposit for an aggregate known by its hash. -/
structure FundsLock where
  mosaic : Mosaic
  duration : UInt64
  hash : TransactionHash
deriving DecidableEq

namespace FundsLock

def schema : Schema :=
  ⟨"lock_funds", [.u64 "mosaic_id", .u64 "amount", .u64 "duration", .array "hash" 32]⟩

def fields (lock : FundsLock) : FieldSet :=
  [("mosaic_id", .scalar lock.mosaic.id.value), ("amount", .scalar lock.mosaic.amount),
    ("duration", .scalar lock.duration), ("hash", .block lock.hash)]

def mosaicOf (fields : FieldSet) : Except PayloadError Mosaic := do
  let id ← fields.scalar "mosaic_id"
  let amount ← fields.scalar "amount"
  .ok ⟨⟨id⟩, amount⟩

def ofFields (fields : FieldSet) : Except PayloadError FundsLock := do
  let mosaic ← mosaicOf fields
  let duration ← fields.scalar "duration"
  let hash ← fields.block 32 "hash"
  .ok ⟨mosaic, duration, hash⟩

end FundsLock

structure SecretLock where
  mosaic : Mosaic
  duration : UInt64
  commitment : Hash.Commitment
  secret : Block 32
  recipient : Recipient
deriving DecidableEq

namespace SecretLock

def schema : Schema :=
  ⟨"secret_lock", [.u64 "mosaic_id", .u64 "amount", .u64 "duration", .u8 "hash_type",
    .array "secret" 32, .array "recipient" 25]⟩

def fields (network : Network) (lock : SecretLock) : FieldSet :=
  [("mosaic_id", .scalar lock.mosaic.id.value), ("amount", .scalar lock.mosaic.amount),
    ("duration", .scalar lock.duration), ("hash_type", .coded lock.commitment),
    ("secret", .block lock.secret), ("recipient", .block (lock.recipient.toBlock network))]

def ofFields (fields : FieldSet) : Except PayloadError SecretLock := do
  let mosaic ← FundsLock.mosaicOf fields
  let duration ← fields.scalar "duration"
  let commitment ← Content.coded Hash.Commitment fields "hash_type"
  let secret ← fields.block 32 "secret"
  let recipient ← Content.recipient fields "recipient"
  .ok ⟨mosaic, duration, commitment, secret, recipient⟩

end SecretLock

/-- Releases a secret lock by its proof. -/
structure SecretProof where
  commitment : Hash.Commitment
  secret : Block 32
  recipient : Recipient
  proof : Bytes
deriving DecidableEq

namespace SecretProof

def schema : Schema :=
  ⟨"secret_proof", [.u8 "hash_type", .array "secret" 32, .array "recipient" 25,
    .u16 "proof_size", .vector "proof" "proof_size"]⟩

def fields (network : Network) (proof : SecretProof) : FieldSet :=
  [("hash_type", .coded proof.commitment), ("secret", .block proof.secret),
    ("recipient", .block (proof.recipient.toBlock network)),
    ("proof_size", .number proof.proof.length), ("proof", .vector proof.proof)]

def ofFields (fields : FieldSet) : Except PayloadError SecretProof := do
  let commitment ← Content.coded Hash.Commitment fields "hash_type"
  let secret ← fields.block 32 "secret"
  let recipient ← Content.recipient fields "recipient"
  let proof ← fields.vector "proof"
  .ok ⟨commitment, secret, recipient, proof⟩

end SecretProof

end LedgerTx
