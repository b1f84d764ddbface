import LedgerTx.Transaction.Payload

/-!
# Signed transactions

The signer signs the hash of a payload from the reserved word to the end of
the body.  The transaction hash, which identifies a signed transaction and
is what cosigners sign, covers signature, signer, kind and body.  Both start
with the generation hash of the network, if it has one.  Cosignatures are
appended to a signed aggregate and change none of the two.
-/

namespace LedgerTx

/-! ## Hashes -/

namespace Payload

/-- The bytes that a generation hash puts before what is hashed. -/
def salt (generation : Option GenerationHash) : Bytes :=
  (generation.map Block.bytes).getD []

def signingInput (payload : Bytes) (generation : Option GenerationHash) :
    Except PayloadError Bytes := do
  let stop ← bodyEnd payload
  .ok (salt generation ++ (payload.take stop).drop signedPosition)

def signingHash (payload : Bytes) (generation : Option GenerationHash) :
    Except PayloadError (Block 32) := do
  .ok (Hash.sha3_256 (← signingInput payload generation))

def hashInput (payload : Bytes) (generation : Option GenerationHash) :
    Except PayloadError Bytes := do
  let stop ← bodyEnd payload
  .ok (salt generation ++ (payload.take signedPosition).drop signaturePosition
    ++ (payload.drop kindPosition).take 2 ++ (payload.take stop).drop headerSize)

def transactionHash (payload : Bytes) (generation : Option GenerationHash) :
    Except PayloadError TransactionHash := do
  .ok (Hash.sha3_256 (← hashInput payload generation))

def splice (payload : Bytes) (signature : Signature) (signer : PublicKey) : Bytes :=
  payload.take signaturePosition ++ signature.bytes ++ signer.bytes
    ++ payload.drop signedPosition

end Payload

/-! ## Signing -/

structure SignedTransaction where
  hash : TransactionHash
  payload : Bytes
  signer : PublicKey
  kind : TransactionKind
  network : Network
deriving DecidableEq

/-- Signs a transaction; cosignatures over an earlier signature are dropped. -/
def Transaction.sign (tx : Transaction) (keys : KeyPair) (generation : Option GenerationHash) :
    Except PayloadError SignedTransaction := do
  let unsigned ← tx.withoutCosignatures.write
  let signature := keys.sign (← Payload.signingHash unsigned generation).bytes
  let payload := Payload.splice unsigned signature keys.publicKey
  let hash ← Payload.transactionHash payload generation
  .ok ⟨hash, payload, keys.publicKey, tx.kind, tx.network⟩

/-! ## Cosigning -/

/-- A cosignature with the hash that it was made over. -/
structure DetachedCosignature where
  parent : TransactionHash
  signature : Signature
  signer : PublicKey
deriving DecidableEq

def KeyPair.cosign (keys : KeyPair) (hash : TransactionHash) : DetachedCosignature :=
  ⟨hash, keys.sign hash.bytes, keys.publicKey⟩

def DetachedCosignature.verify (cosignature : DetachedCosignature) : Except KeyError Unit :=
  cosignature.signer.verify cosignature.parent.bytes cosignature.signature

/--
Why a signed transaction is not accepted or not assembled.  With
`noSizeWord` the size would be written past the end of a payload: that is no
refusal that a caller sees, the run stops there.
-/
inductive SignedError where
  | payload (cause : PayloadError)
  | key (cause : KeyError)
  | notAggregate (kind : TransactionKind)
  | otherHash (expected actual : TransactionHash)
  | noSizeWord
deriving DecidableEq

def SignedError.aggregateFault (kind : TransactionKind) : Fault :=
  .invalid "transaction_type" s!"{kind.label} cannot carry cosignatures"

def SignedError.message : SignedError → String
  | payload cause => cause.message
  | key cause => cause.message
  | notAggregate kind => (aggregateFault kind).message
  | otherHash expected actual =>
      let found := Hex.encode actual.bytes
      let wanted := Hex.encode expected.bytes
      s!"cosignature is over {found}, expected aggregate hash {wanted}"
  | noSizeWord => "payload has no room for its size"

instance : MonadLift (Except PayloadError) (Except SignedError) where
  monadLift
    | .ok value => .ok value
    | .error cause => .error (.payload cause)

instance : MonadLift (Except KeyError) (Except SignedError) where
  monadLift
    | .ok value => .ok value
    | .error cause => .error (.key cause)

namespace SignedTransaction

def size (signed : SignedTransaction) : Nat := signed.payload.length

/-- Appends cosignatures to a payload; one over another hash is refused. -/
def appendAll (hash : TransactionHash) (payload : Bytes) :
    List DetachedCosignature → Except SignedError Bytes
  | [] => .ok payload
  | cosignature :: rest =>
      if cosignature.parent = hash then
        appendAll hash
          (payload ++ cosignature.signer.bytes ++ cosignature.signature.bytes) rest
      else .error (.otherHash hash cosignature.parent)

def assemble (signed : SignedTransaction) (cosignatures : List DetachedCosignature) :
    Except SignedError SignedTransaction := do
  if !signed.kind.isAggregate then .error (.notAggregate signed.kind)
  else do
    let payload ← appendAll signed.hash signed.payload cosignatures
    if payload.length < 4 then .error .noSizeWord
    else do .ok { signed with payload := ← Payload.withSize payload }

def verifyCosignatures (hash : TransactionHash) : List Cosignature → Except SignedError Unit
  | [] => .ok ()
  | cosignature :: rest => do
      cosignature.signer.verify hash.bytes cosignature.signature
      verifyCosignatures hash rest

/--
Checks a signed transaction: its payload reads back signed, signer and kind
are those recorded, the signature is valid, the hash is the recorded one,
and every cosignature is valid.
-/
def verify (signed : SignedTransaction) (generation : Option GenerationHash) :
    Except SignedError Unit := do
  let tx ← Transaction.read signed.payload
  match tx.signature with
  | none => .error (.key .signature)
  | some info =>
      if info.signer ≠ signed.signer ∨ tx.kind ≠ signed.kind then .error (.key .verification)
      else do
        let signingHash ← Payload.signingHash signed.payload generation
        info.signer.verify signingHash.bytes info.signature
        let hash ← Payload.transactionHash signed.payload generation
        if hash ≠ signed.hash then .error (.key .verification)
        else verifyCosignatures hash tx.body.cosignatures

end SignedTransaction

def Transaction.signWith (tx : Transaction) (keys : KeyPair) (cosigners : List KeyPair)
    (generation : Option GenerationHash) : Except SignedError SignedTransaction := do
  let signed ← tx.sign keys generation
  signed.assemble (cosigners.map fun cosigner => cosigner.cosign signed.hash)

end LedgerTx
