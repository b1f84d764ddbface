import LedgerTx.Draft.Account
import LedgerTx.Draft.Asset
import LedgerTx.Draft.Chain
import LedgerTx.Draft.Contract
import LedgerTx.Draft.Drive
import LedgerTx.Draft.Exchange
import LedgerTx.Draft.Lock
import LedgerTx.Draft.Metadata
import LedgerTx.Draft.Naming
import LedgerTx.Settings
import LedgerTx.Transaction.Payload

/-!
# Drafts

A draft describes the body of a transaction that is still to be made.  It is
finished under an envelope, whose open entries are filled in from the
settings of the network.  The fee is settled last, from the size of the
finished transaction.
-/

namespace LedgerTx

/-- A body that is still to be checked and completed. -/
inductive Draft where
  | transfer (transfer : Transfer)
  | mosaicDefinition (owner : PublicKey) (definition : MosaicDefinition)
  | supplyChange (change : SupplyChange)
  | levyChange (change : LevyChange)
  | levyRemoval (removal : LevyRemoval)
  | registration (name : String) (tenure : Tenure)
  | nameLink (link : NameLink)
  | accountFilter (filter : AccountFilter)
  | multisig (draft : MultisigDraft)
  | accountLink (link : AccountLink)
  | fundsLock (draft : FundsLockDraft)
  | secretLock (lock : SecretLock)
  | secretProof (proof : SecretProof)
  | metadataChanges (metadata : MetadataChanges)
  | metadataEntry (draft : MetadataEntryDraft)
  | newOffers (offers : List NewOffer)
  | takenOffers (offers : List TakenOffer)
  | withdrawnOffers (offers : List WithdrawnOffer)
  | contractChange (contract : ContractChange)
  | networkConfig (settings : NetworkConfig)
  | networkUpgrade (upgrade : NetworkUpgrade)
  | drivePreparation (drive : DrivePreparation)
  | aggregate (bonded : Bool) (inner : List Embedded)

structure Envelope where
  network : Option Network := none
  version : Option UInt8 := none
  maxFee : Option UInt64 := none
  deadline : Option Deadline := none

namespace Draft

def checked {α : Type} (check : α → Except DraftFault Unit) (wrap : α → Operation) (a : α) :
    Except DraftFault Body := do
  check a
  .ok (.operation (wrap a))

def completed {α : Type} (result : Except DraftFault α) (wrap : α → Operation) :
    Except DraftFault Body := do
  .ok (.operation (wrap (← result)))

/-- The aggregate of embedded transactions: at least one, and none of them an aggregate. -/
def bundle (bonded : Bool) (inner : List Embedded) : Except DraftFault Body :=
  if inner.isEmpty then .error (.missing "transactions")
  else
    match inner.find? fun embedded => embedded.kind.isAggregate with
    | some nested => .error (.nestedAggregate nested.kind)
    | none => .ok (.aggregate bonded inner [])

def body : Draft → Except DraftFault Body
  | transfer op => checked Transfer.check .transfer op
  | mosaicDefinition owner op => checked (MosaicDefinition.check owner) .mosaicDefinition op
  | supplyChange op => checked SupplyChange.check .supplyChange op
  | levyChange op => checked (fun change => Levy.check change.levy) .levyChange op
  | levyRemoval op => .ok (.operation (.levyRemoval op))
  | registration name tenure => completed (Registration.ofDraft name tenure) .registration
  | nameLink op => checked NameLink.check .nameLink op
  | accountFilter op => checked AccountFilter.check .accountFilter op
  | multisig draft => completed draft.finish .multisig
  | accountLink op => .ok (.operation (.accountLink op))
  | fundsLock draft => completed draft.finish .fundsLock
  | secretLock op => .ok (.operation (.secretLock op))
  | secretProof op => checked SecretProof.check .secretProof op
  | metadataChanges op => checked MetadataChanges.check .metadataChanges op
  | metadataEntry draft => completed draft.finish .metadataEntry
  | newOffers offers => checked NewOffer.checkAll .newOffers offers
  | takenOffers offers => checked TakenOffer.checkAll .takenOffers offers
  | withdrawnOffers offers => checked WithdrawnOffer.checkAll .withdrawnOffers offers
  | contractChange op => checked ContractChange.check .contractChange op
  | networkConfig op => checked NetworkConfig.check .networkConfig op
  | networkUpgrade op => checked NetworkUpgrade.check .networkUpgrade op
  | drivePreparation op => checked DrivePreparation.check .drivePreparation op
  | aggregate bonded inner => bundle bonded inner

end Draft

namespace Envelope

def networkIn (envelope : Envelope) (settings : Settings) : Network :=
  envelope.network.getD settings.network

def versionOf (envelope : Envelope) (kind : TransactionKind) : UInt8 :=
  envelope.version.getD kind.version

def deadlineIn (envelope : Envelope) (settings : Settings) (now : Int) :
    Except DraftFault Deadline :=
  match envelope.deadline with
  | some deadline => .ok deadline
  | none =>
      match Deadline.after now settings.horizon with
      | .ok deadline => .ok deadline
      | .error cause => .error (.deadline cause)

/-- The fee of a transaction, which is sized unless the envelope gives its fee. -/
def maxFeeOf (envelope : Envelope) (settings : Settings) (tx : Transaction) :
    Except DraftFault UInt64 :=
  match envelope.maxFee with
  | some fee => .ok fee
  | none =>
      match tx.write with
      | .error cause => .error (.unsized cause)
      | .ok payload =>
          match settings.fees.fee? tx.kind payload.length with
          | some fee => .ok fee
          | none => .error .feeOverflow

end Envelope

namespace Draft

def checkNetworks (network : Network) : Body → Except DraftFault Unit
  | .operation _ => .ok ()
  | .aggregate _ inner _ =>
      match inner.find? fun embedded => embedded.network != network with
      | some other => .error (.otherNetwork other.kind other.network network)
      | none => .ok ()

def build (settings : Settings) (envelope : Envelope) (now : Int) (draft : Draft) :
    Except DraftFault Transaction := do
  let body ← draft.body
  let network := envelope.networkIn settings
  checkNetworks network body
  let deadline ← envelope.deadlineIn settings now
  let version := envelope.versionOf body.kind
  let tx : Transaction := ⟨network, version, 0, deadline, none, body⟩
  .ok { tx with maxFee := ← envelope.maxFeeOf settings tx }

/-- The draft as a transaction of an aggregate, which has no fee and no deadline. -/
def buildEmbedded (settings : Settings) (envelope : Envelope) (draft : Draft) :
    Except DraftFault Embedded := do
  let body ← draft.body
  if body.kind.isAggregate then .error .embeddedAggregate
  else .ok ⟨envelope.networkIn settings, envelope.versionOf body.kind, body⟩

end Draft

end LedgerTx
