import LedgerTx.Draft.Distinct
import LedgerTx.Draft.Fault

/-! # Drafts of transfers and asset operations -/

namespace LedgerTx

def Transfer.check (transfer : Transfer) : Except DraftFault Unit :=
  if maxMosaics < transfer.mosaics.length then .error .tooManyMosaics
  else
    match Draft.firstRepeat? Mosaic.id transfer.mosaics with
    | some mosaic => .error (.repeatedMosaic mosaic.id)
    | none =>
        if maxMessageSize < transfer.message.payload.length then .error .messageSize else .ok ()

def Transfer.blank (recipient : Recipient) : Transfer := ⟨recipient, [], .empty⟩

/--
Refuses properties out of bounds, and an id or a nonce other than those that
the owner derives from the nonce.
-/
def MosaicDefinition.check (owner : PublicKey) (definition : MosaicDefinition) :
    Except DraftFault Unit :=
  if MosaicProperties.maxDivisibility < definition.properties.divisibility.toNat then
    .error (.divisibility definition.properties.divisibility)
  else if definition.properties.duration = some 0 then .error .zeroDuration
  else
    match MosaicId.derive owner definition.nonce with
    | .error cause => .error (.noMosaicId cause)
    | .ok (id, nonce) =>
        if id ≠ definition.id then .error (.otherMosaicId definition.id definition.nonce id)
        else if nonce ≠ definition.nonce then .error (.reservedNonce definition.nonce nonce)
        else .ok ()

/-- The definition whose id the owner derives from a nonce on. -/
def MosaicDefinition.derived (owner : PublicKey) (start : MosaicNonce)
    (properties : MosaicProperties) : Except MosaicId.CollisionError MosaicDefinition := do
  let (id, nonce) ← MosaicId.derive owner start
  .ok ⟨nonce, id, properties⟩

def SupplyChange.check (change : SupplyChange) : Except DraftFault Unit :=
  if change.delta = 0 then .error (.notPositive "delta") else .ok ()

/-- Refuses a levy of nothing, and a share above the whole amount. -/
def Levy.check (levy : Levy) : Except DraftFault Unit :=
  if levy.fee = 0 then .error (.notPositive "fee")
  else if levy.type = .percentile ∧ whole < levy.fee.toNat then .error (.levyShare levy.fee)
  else .ok ()

end LedgerTx
