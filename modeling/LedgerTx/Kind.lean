import LedgerTx.Coded
import LedgerTx.Text.Hex

/-!
# Transaction kinds

Every transaction names its kind by a two-byte code in its header.  A kind
fixes the layout of the body and the version that new bodies have.
-/

namespace LedgerTx

/-- The kinds of transactions, in the order that sorted tables list them. -/
inductive TransactionKind where
  | transfer
  | mosaicDefinition
  | mosaicSupplyChange
  | registerNamespace
  | addressAlias
  | mosaicAlias
  | modifyMultisigAccount
  | aggregateComplete
  | aggregateBonded
  | lockFunds
  | accountPropertiesAddress
  | accountPropertiesMosaic
  | accountPropertiesEntityType
  | secretLock
  | secretProof
  | accountLink
  | modifyAddressMetadata
  | modifyMosaicMetadata
  | modifyNamespaceMetadata
  | accountMetadata
  | mosaicMetadata
  | namespaceMetadata
  | modifyMosaicLevy
  | removeMosaicLevy
  | exchangeOfferAdd
  | exchangeOffer
  | exchangeOfferRemove
  | modifyContract
  | blockchainConfig
  | blockchainUpgrade
  | drivePrepare
deriving DecidableEq

namespace TransactionKind

def list : List TransactionKind :=
  [transfer, mosaicDefinition, mosaicSupplyChange, registerNamespace, addressAlias,
    mosaicAlias, modifyMultisigAccount, aggregateComplete, aggregateBonded, lockFunds,
    accountPropertiesAddress, accountPropertiesMosaic, accountPropertiesEntityType,
    secretLock, secretProof, accountLink, modifyAddressMetadata, modifyMosaicMetadata,
    modifyNamespaceMetadata, accountMetadata, mosaicMetadata, namespaceMetadata,
    modifyMosaicLevy, removeMosaicLevy, exchangeOfferAdd, exchangeOffer,
    exchangeOfferRemove, modifyContract, blockchainConfig, blockchainUpgrade,
    drivePrepare]

def number : TransactionKind → Nat
  | transfer => 0x4154
  | mosaicDefinition => 0x414d
  | mosaicSupplyChange => 0x424d
  | registerNamespace => 0x414e
  | addressAlias => 0x424e
  | mosaicAlias => 0x434e
  | modifyMultisigAccount => 0x4155
  | aggregateComplete => 0x4141
  | aggregateBonded => 0x4241
  | lockFunds => 0x4148
  | accountPropertiesAddress => 0x4150
  | accountPropertiesMosaic => 0x4250
  | accountPropertiesEntityType => 0x4350
  | secretLock => 0x4152
  | secretProof => 0x4252
  | accountLink => 0x414c
  | modifyAddressMetadata => 0x413d
  | modifyMosaicMetadata => 0x423d
  | modifyNamespaceMetadata => 0x433d
  | accountMetadata => 0x413f
  | mosaicMetadata => 0x423f
  | namespaceMetadata => 0x433f
  | modifyMosaicLevy => 0x434d
  | removeMosaicLevy => 0x444d
  | exchangeOfferAdd => 0x415d
  | exchangeOffer => 0x425d
  | exchangeOfferRemove => 0x435d
  | modifyContract => 0x4157
  | blockchainConfig => 0x4159
  | blockchainUpgrade => 0x4158
  | drivePrepare => 0x415a

def title : TransactionKind → String
  | transfer => "Transfer"
  | mosaicDefinition => "MosaicDefinition"
  | mosaicSupplyChange => "MosaicSupplyChange"
  | registerNamespace => "RegisterNamespace"
  | addressAlias => "AddressAlias"
  | mosaicAlias => "MosaicAlias"
  | modifyMultisigAccount => "ModifyMultisigAccount"
  | aggregateComplete => "AggregateComplete"
  | aggregateBonded => "AggregateBonded"
  | lockFunds => "LockFunds"
  | accountPropertiesAddress => "AccountPropertiesAddress"
  | accountPropertiesMosaic => "AccountPropertiesMosaic"
  | accountPropertiesEntityType => "AccountPropertiesEntityType"
  | secretLock => "SecretLock"
  | secretProof => "SecretProof"
  | accountLink => "AccountLink"
  | modifyAddressMetadata => "ModifyAddressMetadata"
  | modifyMosaicMetadata => "ModifyMosaicMetadata"
  | modifyNamespaceMetadata => "ModifyNamespaceMetadata"
  | accountMetadata => "AccountMetadata"
  | mosaicMetadata => "MosaicMetadata"
  | namespaceMetadata => "NamespaceMetadata"
  | modifyMosaicLevy => "ModifyMosaicLevy"
  | removeMosaicLevy => "RemoveMosaicLevy"
  | exchangeOfferAdd => "ExchangeOfferAdd"
  | exchangeOffer => "ExchangeOffer"
  | exchangeOfferRemove => "ExchangeOfferRemove"
  | modifyContract => "ModifyContract"
  | blockchainConfig => "BlockchainConfig"
  | blockchainUpgrade => "BlockchainUpgrade"
  | drivePrepare => "DrivePrepare"

instance : Coded TransactionKind where
  all := list
  code := number
  name := title
  mem_all a := by cases a <;> simp [list]
  nodup_codes := by decide

/-- The body version that a new transaction has. -/
def version : TransactionKind → UInt8
  | exchangeOfferAdd => 4
  | transfer | mosaicDefinition | modifyMultisigAccount | aggregateComplete |
  aggregateBonded | modifyContract => 3
  | mosaicSupplyChange | registerNamespace | accountLink | exchangeOffer |
  exchangeOfferRemove => 2
  | _ => 1

def isAggregate (kind : TransactionKind) : Bool :=
  kind = aggregateComplete ∨ kind = aggregateBonded

def label (kind : TransactionKind) : String :=
  s!"{kind.title}(0x{Hex.ofNat 4 kind.number})"

end TransactionKind

end LedgerTx
