import LedgerTx.Draft.Fault
import LedgerTx.Transaction.Signed

/-!
# Drafts of locks

A deposit is for an aggregate known by its hash or as a signed transaction,
which must then be a bonded one.  A proof must hash to its secret.
-/

namespace LedgerTx

inductive DepositFor where
  | hash (hash : TransactionHash)
  | signed (aggregate : SignedTransaction)
deriving DecidableEq

/-- The hash of the aggregate that a deposit is for; a signed one must be bonded. -/
def DepositFor.resolve : DepositFor → Except DraftFault TransactionHash
  | .hash known => .ok known
  | .signed aggregate =>
      if aggregate.kind = .aggregateBonded then .ok aggregate.hash
      else .error (.notBonded aggregate.kind)

/-- A funds lock whose aggregate may still be open. -/
structure FundsLockDraft where
  mosaic : Mosaic
  duration : UInt64
  aggregate : Option DepositFor := none
deriving DecidableEq

def FundsLockDraft.finish (draft : FundsLockDraft) : Except DraftFault FundsLock :=
  match draft.aggregate with
  | none => .error (.missing "hash")
  | some aggregate => do .ok ⟨draft.mosaic, draft.duration, ← aggregate.resolve⟩

/-- Refuses an empty proof, and one that does not hash to the secret. -/
def SecretProof.check (proof : SecretProof) : Except DraftFault Unit :=
  if proof.proof = [] then .error (.missing "proof")
  else if proof.commitment.secret proof.proof ≠ proof.secret then
    .error (.otherSecret proof.commitment)
  else .ok ()

end LedgerTx
