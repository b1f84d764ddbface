import LedgerTx.Document.Value
import LedgerTx.Operation.Basic

/-!
# Documents of operations

Every operation is an object of its kind and its fields.  A change of a list
is an array of the change and the entry.
-/

namespace LedgerTx

open Document (read write via one oneOf record tagged get member)

instance {α : Type} [Document α] : Document (Modification α) where
  read
    | .array [change, value] => do .ok ⟨← read change, ← read value⟩
    | _ => .error .shape
  write m := .array [write m.change, write m.value]

instance : Document Transfer :=
  record "recipient mosaics message" Transfer.mk
    fun ⟨recipient, mosaics, message⟩ => (recipient, mosaics, message)

instance : Document MosaicDefinition :=
  record "nonce mosaic_id properties" MosaicDefinition.mk
    fun ⟨nonce, id, properties⟩ => (nonce, id, properties)

instance : Document SupplyChange :=
  record "mosaic_id supply_type delta" SupplyChange.mk
    fun ⟨id, direction, delta⟩ => (id, direction, delta)

instance : Document LevyChange :=
  record "mosaic_id levy" LevyChange.mk fun ⟨id, levy⟩ => (id, levy)

instance : Document LevyRemoval :=
  record "mosaic_id" LevyRemoval.mk LevyRemoval.id

instance : Document Tenure where
  read := oneOf [("root", via .root), ("sub", via .sub)]
  write
    | .root duration => one "root" duration
    | .sub parent => one "sub" parent

instance : Document Registration :=
  record "name namespace_id registration" Registration.mk
    fun ⟨name, id, tenure⟩ => (name, id, tenure)

instance : Document LinkTarget where
  read := oneOf [("address", via .address), ("mosaic", via .mosaic)]
  write
    | .address address => one "address" address
    | .mosaic id => one "mosaic" id

instance : Document NameLink :=
  record "action namespace_id target" NameLink.mk
    fun ⟨action, id, target⟩ => (action, id, target)

def FilterChanges.ofDocument (json : Json) : Except DocumentError FilterChanges := do
  let list := member "modifications" json
  match ← get json "target" with
  | "Address" => via .address list
  | "Mosaic" => via .mosaic list
  | "EntityType" => via .kind list
  | _ => .error .name

def FilterChanges.toDocument : FilterChanges → Json
  | .address list => write list
  | .mosaic list => write list
  | .kind list => write list

instance : Document AccountFilter where
  read json := do .ok ⟨← get json "property_type", ← FilterChanges.ofDocument json⟩
  write filter :=
    Document.object "property_type target modifications"
      (filter.type, filter.changes.target.name, filter.changes.toDocument)

instance : Document Multisig :=
  record "min_approval_delta min_removal_delta modifications" Multisig.mk
    fun ⟨approval, removal, changes⟩ => (approval, removal, changes)

instance : Document AccountLink :=
  record "remote_public_key action" AccountLink.mk fun ⟨remote, action⟩ => (remote, action)

instance : Document FundsLock :=
  record "mosaic duration hash" FundsLock.mk
    fun ⟨mosaic, duration, hash⟩ => (mosaic, duration, hash)

instance : Document SecretLock :=
  record "mosaic duration hash_type secret recipient" SecretLock.mk
    fun ⟨mosaic, duration, commitment, secret, recipient⟩ =>
      (mosaic, duration, commitment, secret, recipient)

instance : Document SecretProof :=
  record "hash_type secret recipient proof" SecretProof.mk
    fun ⟨commitment, secret, recipient, proof⟩ => (commitment, secret, recipient, proof)

instance : Document MetadataTarget where
  read := oneOf [("address", via .address), ("mosaic", via .mosaic), ("namespace", via .namespaced)]
  write
    | .address address => one "address" address
    | .mosaic id => one "mosaic" id
    | .namespaced id => one "namespace" id

instance : Document MetadataChange where
  read
    | .array [change, key, value] => do .ok ⟨← read change, ← read key, ← read value⟩
    | _ => .error .shape
  write m := .array [write m.change, write m.key, write m.value]

instance : Document MetadataChanges :=
  record "target modifications" MetadataChanges.mk fun ⟨target, changes⟩ => (target, changes)

instance : Document MetadataEntity where
  read
    | .string "account" => .ok .account
    | json => oneOf [("mosaic", via .mosaic), ("namespace", via .namespaced)] json
  write
    | .account => .string "account"
    | .mosaic id => one "mosaic" id
    | .namespaced id => one "namespace" id

instance : Document MetadataEntry :=
  record "target_key scoped_metadata_key target value_size_delta value" MetadataEntry.mk
    fun ⟨targetKey, scopedKey, entity, sizeDelta, value⟩ =>
      (targetKey, scopedKey, entity, sizeDelta, value)

instance : Document NewOffer :=
  record "mosaic cost offer_type duration" (fun mosaic cost side => NewOffer.mk ⟨mosaic, cost, side⟩)
    fun ⟨⟨mosaic, cost, side⟩, duration⟩ => (mosaic, cost, side, duration)

instance : Document TakenOffer :=
  record "mosaic cost offer_type owner" (fun mosaic cost side => TakenOffer.mk ⟨mosaic, cost, side⟩)
    fun ⟨⟨mosaic, cost, side⟩, owner⟩ => (mosaic, cost, side, owner)

instance : Document WithdrawnOffer :=
  record "mosaic_id offer_type" WithdrawnOffer.mk fun ⟨id, side⟩ => (id, side)

instance : Document ContractChange :=
  record "duration_delta content_hash customers executors verifiers" ContractChange.mk
    fun ⟨delta, hash, customers, executors, verifiers⟩ =>
      (delta, hash, customers, executors, verifiers)

instance : Document NetworkConfig :=
  record "apply_height_delta config supported_entity_versions" NetworkConfig.mk
    fun ⟨heightDelta, config, entityVersions⟩ => (heightDelta, config, entityVersions)

/-- A version is an array of its four numbers. -/
instance : Document SoftwareVersion where
  read
    | .array [major, minor, revision, build] => do
        .ok ⟨← read major, ← read minor, ← read revision, ← read build⟩
    | _ => .error .shape
  write version := write [version.major, version.minor, version.revision, version.build]

instance : Document NetworkUpgrade :=
  record "upgrade_period new_version" NetworkUpgrade.mk fun ⟨period, version⟩ => (period, version)

instance : Document DrivePreparation :=
  record ("owner duration billing_period billing_price drive_size "
      ++ "replicas min_replicators percent_approvers") DrivePreparation.mk
    fun ⟨owner, duration, period, price, size, replicas, minReplicators, percent⟩ =>
      (owner, duration, period, price, size, replicas, minReplicators, percent)

instance : Document Operation where
  read json := do
    match ← get json "kind" with
    | "Transfer" => via .transfer json
    | "MosaicDefinition" => via .mosaicDefinition json
    | "MosaicSupplyChange" => via .supplyChange json
    | "RegisterNamespace" => via .registration json
    | "Alias" => via .nameLink json
    | "AccountProperty" => via .accountFilter json
    | "ModifyMultisigAccount" => via .multisig json
    | "LockFunds" => via .fundsLock json
    | "SecretLock" => via .secretLock json
    | "SecretProof" => via .secretProof json
    | "ModifyMetadata" => via .metadataChanges json
    | "AccountLink" => via .accountLink json
    | "Metadata" => via .metadataEntry json
    | "ModifyMosaicLevy" => via .levyChange json
    | "RemoveMosaicLevy" => via .levyRemoval json
    | "ExchangeOfferAdd" => via .newOffers (member "offers" json)
    | "ExchangeOffer" => via .takenOffers (member "offers" json)
    | "ExchangeOfferRemove" => via .withdrawnOffers (member "offers" json)
    | "ModifyContract" => via .contractChange json
    | "BlockchainConfig" => via .networkConfig json
    | "BlockchainUpgrade" => via .networkUpgrade json
    | "DrivePrepare" => via .drivePreparation json
    | _ => .error .shape
  write
    | .transfer op => tagged "Transfer" op
    | .mosaicDefinition op => tagged "MosaicDefinition" op
    | .supplyChange op => tagged "MosaicSupplyChange" op
    | .registration op => tagged "RegisterNamespace" op
    | .nameLink op => tagged "Alias" op
    | .accountFilter op => tagged "AccountProperty" op
    | .multisig op => tagged "ModifyMultisigAccount" op
    | .fundsLock op => tagged "LockFunds" op
    | .secretLock op => tagged "SecretLock" op
    | .secretProof op => tagged "SecretProof" op
    | .metadataChanges op => tagged "ModifyMetadata" op
    | .accountLink op => tagged "AccountLink" op
    | .metadataEntry op => tagged "Metadata" op
    | .levyChange op => tagged "ModifyMosaicLevy" op
    | .levyRemoval op => tagged "RemoveMosaicLevy" op
    | .newOffers offers => tagged "ExchangeOfferAdd" (one "offers" offers)
    | .takenOffers offers => tagged "ExchangeOffer" (one "offers" offers)
    | .withdrawnOffers offers => tagged "ExchangeOfferRemove" (one "offers" offers)
    | .contractChange op => tagged "ModifyContract" op
    | .networkConfig op => tagged "BlockchainConfig" op
    | .networkUpgrade op => tagged "BlockchainUpgrade" op
    | .drivePreparation op => tagged "DrivePrepare" op

end LedgerTx
