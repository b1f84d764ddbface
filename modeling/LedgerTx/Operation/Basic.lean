import LedgerTx.Operation.Account
import LedgerTx.Operation.Asset
import LedgerTx.Operation.Chain
import LedgerTx.Operation.Contract
import LedgerTx.Operation.Drive
import LedgerTx.Operation.Exchange
import LedgerTx.Operation.Lock
import LedgerTx.Operation.Metadata
import LedgerTx.Operation.Naming
import LedgerTx.Operation.Transfer

/-!
# Operations

Everything that a single transaction can do.  Each operation has a kind; the
kind fixes the layout of its body, and reading a body of that layout gives
the operation back.
-/

namespace LedgerTx

open Layout (FieldSet Schema)

/-- What a transaction does. -/
inductive Operation where
  | transfer (operation : Transfer)
  | mosaicDefinition (operation : MosaicDefinition)
  | supplyChange (operation : SupplyChange)
  | registration (operation : Registration)
  | nameLink (operation : NameLink)
  | accountFilter (operation : AccountFilter)
  | multisig (operation : Multisig)
  | fundsLock (operation : FundsLock)
  | secretLock (operation : SecretLock)
  | secretProof (operation : SecretProof)
  | metadataChanges (operation : MetadataChanges)
  | accountLink (operation : AccountLink)
  | metadataEntry (operation : MetadataEntry)
  | levyChange (operation : LevyChange)
  | levyRemoval (operation : LevyRemoval)
  | newOffers (offers : List NewOffer)
  | takenOffers (offers : List TakenOffer)
  | withdrawnOffers (offers : List WithdrawnOffer)
  | contractChange (operation : ContractChange)
  | networkConfig (operation : NetworkConfig)
  | networkUpgrade (operation : NetworkUpgrade)
  | drivePreparation (operation : DrivePreparation)
deriving DecidableEq

namespace Operation

def kind : Operation → TransactionKind
  | transfer _ => .transfer
  | mosaicDefinition _ => .mosaicDefinition
  | supplyChange _ => .mosaicSupplyChange
  | registration _ => .registerNamespace
  | nameLink operation => operation.kind
  | accountFilter operation => operation.kind
  | multisig _ => .modifyMultisigAccount
  | fundsLock _ => .lockFunds
  | secretLock _ => .secretLock
  | secretProof _ => .secretProof
  | metadataChanges operation => operation.kind
  | accountLink _ => .accountLink
  | metadataEntry operation => operation.kind
  | levyChange _ => .modifyMosaicLevy
  | levyRemoval _ => .removeMosaicLevy
  | newOffers _ => .exchangeOfferAdd
  | takenOffers _ => .exchangeOffer
  | withdrawnOffers _ => .exchangeOfferRemove
  | contractChange _ => .modifyContract
  | networkConfig _ => .blockchainConfig
  | networkUpgrade _ => .blockchainUpgrade
  | drivePreparation _ => .drivePrepare

def fields (network : Network) : Operation → FieldSet
  | transfer operation => operation.fields network
  | mosaicDefinition operation => operation.fields
  | supplyChange operation => operation.fields
  | registration operation => operation.fields
  | nameLink operation => operation.fields
  | accountFilter operation => operation.fields
  | multisig operation => operation.fields
  | fundsLock operation => operation.fields
  | secretLock operation => operation.fields network
  | secretProof operation => operation.fields network
  | metadataChanges operation => operation.fields
  | accountLink operation => operation.fields
  | metadataEntry operation => operation.fields
  | levyChange operation => operation.fields network
  | levyRemoval operation => operation.fields
  | newOffers offers => Offer.listFields NewOffer.fields offers
  | takenOffers offers => Offer.listFields TakenOffer.fields offers
  | withdrawnOffers offers => Offer.listFields WithdrawnOffer.fields offers
  | contractChange operation => operation.fields
  | networkConfig operation => operation.fields
  | networkUpgrade operation => operation.fields
  | drivePreparation operation => operation.fields

end Operation

/--
The layout of an aggregate: the size of the embedded transactions and these,
one after the other.
-/
def aggregateSchema : Schema :=
  ⟨"aggregate", [.u32 "transactions_size", .vector "transactions" "transactions_size"]⟩

def TransactionKind.schema : TransactionKind → Schema
  | transfer => Transfer.schema
  | mosaicDefinition => MosaicDefinition.schema
  | mosaicSupplyChange => SupplyChange.schema
  | registerNamespace => Registration.schema
  | addressAlias => NameLink.addressSchema
  | mosaicAlias => NameLink.mosaicSchema
  | modifyMultisigAccount => Multisig.schema
  | aggregateComplete => aggregateSchema
  | aggregateBonded => aggregateSchema
  | lockFunds => FundsLock.schema
  | accountPropertiesAddress => AccountFilter.addressSchema
  | accountPropertiesMosaic => AccountFilter.mosaicSchema
  | accountPropertiesEntityType => AccountFilter.kindSchema
  | secretLock => SecretLock.schema
  | secretProof => SecretProof.schema
  | accountLink => AccountLink.schema
  | modifyAddressMetadata => MetadataChanges.addressSchema
  | modifyMosaicMetadata => MetadataChanges.mosaicSchema
  | modifyNamespaceMetadata => MetadataChanges.namespacedSchema
  | accountMetadata => MetadataEntry.accountSchema
  | mosaicMetadata => MetadataEntry.entitySchema
  | namespaceMetadata => MetadataEntry.entitySchema
  | modifyMosaicLevy => LevyChange.schema
  | removeMosaicLevy => LevyRemoval.schema
  | exchangeOfferAdd => NewOffer.schema
  | exchangeOffer => TakenOffer.schema
  | exchangeOfferRemove => WithdrawnOffer.schema
  | modifyContract => ContractChange.schema
  | blockchainConfig => NetworkConfig.schema
  | blockchainUpgrade => NetworkUpgrade.schema
  | drivePrepare => DrivePreparation.schema

/-- How the body of a kind is read from a table: as an operation or as an aggregate. -/
inductive BodyReader where
  | operation (read : FieldSet → Except PayloadError Operation)
  | aggregate (bonded : Bool)

namespace BodyReader

def ofType {α : Type} (read : FieldSet → Except PayloadError α) (wrap : α → Operation) :
    BodyReader :=
  operation fun fields => (read fields).map wrap

end BodyReader

def TransactionKind.reader : TransactionKind → BodyReader
  | transfer => .ofType Transfer.ofFields .transfer
  | mosaicDefinition => .ofType MosaicDefinition.ofFields .mosaicDefinition
  | mosaicSupplyChange => .ofType SupplyChange.ofFields .supplyChange
  | registerNamespace => .ofType Registration.ofFields .registration
  | addressAlias => .ofType NameLink.ofAddressFields .nameLink
  | mosaicAlias => .ofType NameLink.ofMosaicFields .nameLink
  | modifyMultisigAccount => .ofType Multisig.ofFields .multisig
  | aggregateComplete => .aggregate false
  | aggregateBonded => .aggregate true
  | lockFunds => .ofType FundsLock.ofFields .fundsLock
  | accountPropertiesAddress => .ofType AccountFilter.ofAddressFields .accountFilter
  | accountPropertiesMosaic => .ofType AccountFilter.ofMosaicFields .accountFilter
  | accountPropertiesEntityType => .ofType AccountFilter.ofKindFields .accountFilter
  | secretLock => .ofType SecretLock.ofFields .secretLock
  | secretProof => .ofType SecretProof.ofFields .secretProof
  | accountLink => .ofType AccountLink.ofFields .accountLink
  | modifyAddressMetadata => .ofType MetadataChanges.ofAddressFields .metadataChanges
  | modifyMosaicMetadata => .ofType MetadataChanges.ofMosaicFields .metadataChanges
  | modifyNamespaceMetadata => .ofType MetadataChanges.ofNamespacedFields .metadataChanges
  | accountMetadata => .ofType MetadataEntry.ofAccountFields .metadataEntry
  | mosaicMetadata => .ofType MetadataEntry.ofMosaicFields .metadataEntry
  | namespaceMetadata => .ofType MetadataEntry.ofNamespacedFields .metadataEntry
  | modifyMosaicLevy => .ofType LevyChange.ofFields .levyChange
  | removeMosaicLevy => .ofType LevyRemoval.ofFields .levyRemoval
  | exchangeOfferAdd => .ofType (Offer.listOf NewOffer.ofFields) .newOffers
  | exchangeOffer => .ofType (Offer.listOf TakenOffer.ofFields) .takenOffers
  | exchangeOfferRemove => .ofType (Offer.listOf WithdrawnOffer.ofFields) .withdrawnOffers
  | modifyContract => .ofType ContractChange.ofFields .contractChange
  | blockchainConfig => .ofType NetworkConfig.ofFields .networkConfig
  | blockchainUpgrade => .ofType NetworkUpgrade.ofFields .networkUpgrade
  | drivePrepare => .ofType DrivePreparation.ofFields .drivePreparation

end LedgerTx
