import LedgerTx.Layout.Schema
import LedgerTx.Mosaic
import LedgerTx.Operation.Change
import LedgerTx.Operation.Content

/-!
# Metadata

Texts attached to an address, a mosaic or a namespace, in two forms: a list
of key and value changes, and a single entry that carries its new value
added, byte by byte, to the current one.
-/

namespace LedgerTx

open Layout (FieldSet Value Schema FieldSpec)

/-! ## Key and value changes -/

inductive MetadataType where
  | address
  | mosaic
  | namespaced
deriving DecidableEq

instance : Coded MetadataType where
  all := [.address, .mosaic, .namespaced]
  code
    | .address => 1
    | .mosaic => 2
    | .namespaced => 3
  name
    | .address => "Address"
    | .mosaic => "Mosaic"
    | .namespaced => "Namespace"
  mem_all a := by cases a <;> simp
  nodup_codes := by decide

inductive MetadataTarget where
  | address (address : Address)
  | mosaic (id : MosaicId)
  | namespaced (id : NamespaceId)
deriving DecidableEq

def MetadataTarget.type : MetadataTarget → MetadataType
  | address _ => .address
  | mosaic _ => .mosaic
  | namespaced _ => .namespaced

/-- A change of the value under a key; a removal has no value. -/
structure MetadataChange where
  change : Change
  key : String
  value : String
deriving DecidableEq

structure MetadataChanges where
  target : MetadataTarget
  changes : List MetadataChange
deriving DecidableEq

namespace MetadataChanges

def headerSize : Nat := 8

/-- The layout of a change, which starts with its own size. -/
def changeSchema : Schema :=
  ⟨"metadata_modification", [.u32 "size", .u8 "type", .u8 "key_size", .u16 "value_size",
    .vector "key" "key_size", .vector "value" "value_size"]⟩

/-- The layout of changes, which run to the end, after the given target field. -/
def schemaWith (name : String) (target : FieldSpec) : Schema :=
  ⟨name, [.u8 "metadata_type", target, .tablesToEnd "modifications" changeSchema]⟩

def addressSchema : Schema := schemaWith "modify_address_metadata" (.array "target" 25)

def mosaicSchema : Schema := schemaWith "modify_mosaic_metadata" (.u64 "target")

def namespacedSchema : Schema := schemaWith "modify_namespace_metadata" (.u64 "target")

def targetKind : MetadataTarget → TransactionKind
  | .address _ => .modifyAddressMetadata
  | .mosaic _ => .modifyMosaicMetadata
  | .namespaced _ => .modifyNamespaceMetadata

def kind (metadata : MetadataChanges) : TransactionKind := targetKind metadata.target

def targetValue : MetadataTarget → Value
  | .address address => .block address.toBlock
  | .mosaic id => .scalar id.value
  | .namespaced id => .scalar id.value

def changeFields (m : MetadataChange) : FieldSet :=
  [("size", .number (headerSize + Utf8.size m.key + Utf8.size m.value)),
    ("type", .coded m.change), ("key_size", .number (Utf8.size m.key)),
    ("value_size", .number (Utf8.size m.value)), ("key", .text m.key), ("value", .text m.value)]

def fields (metadata : MetadataChanges) : FieldSet :=
  [("metadata_type", .coded metadata.target.type), ("target", targetValue metadata.target),
    ("modifications", .tableArray (metadata.changes.map changeFields))]

/-- The change of a table; the declared size must be the size of the content. -/
def changeOf (fields : FieldSet) : Except PayloadError MetadataChange := do
  let key ← fields.vector "key"
  let value ← fields.vector "value"
  let declared ← fields.scalar "size"
  let needed := headerSize + key.length + value.length
  if declared.toNat ≠ needed then
    .error (.content "modifications" (.modificationSize declared.toNat needed))
  else do
    let change ← Content.coded Change fields "type"
    let key ← Content.text "key" key
    let value ← Content.text "value" value
    .ok ⟨change, key, value⟩

/-- The changes of a table once its target has been read; the written type must be its own. -/
def withTarget (fields : FieldSet) (target : MetadataTarget) :
    Except PayloadError MetadataChanges := do
  let type ← fields.scalar8 "metadata_type"
  if type.toNat ≠ Coded.code target.type then
    .error (.content "metadata_type" (.metadataType type (targetKind target)))
  else do
    .ok ⟨target, ← (← fields.tableArray "modifications").mapM changeOf⟩

def ofAddressFields (fields : FieldSet) : Except PayloadError MetadataChanges := do
  withTarget fields (.address (← Content.address fields "target"))

def ofMosaicFields (fields : FieldSet) : Except PayloadError MetadataChanges := do
  withTarget fields (.mosaic ⟨← fields.scalar "target"⟩)

def ofNamespacedFields (fields : FieldSet) : Except PayloadError MetadataChanges := do
  withTarget fields (.namespaced ⟨← fields.scalar "target"⟩)

end MetadataChanges

/-! ## Single entries -/

inductive MetadataEntity where
  | account
  | mosaic (id : MosaicId)
  | namespaced (id : NamespaceId)
deriving DecidableEq

/--
Sets an entry.  `value` is the new value added, byte by byte, to the current
one, both filled up with zero bytes to the longer length; `sizeDelta` is by
how much the new value is longer.
-/
structure MetadataEntry where
  targetKey : PublicKey
  scopedKey : UInt64
  entity : MetadataEntity
  sizeDelta : Int16
  value : Bytes
deriving DecidableEq

namespace MetadataEntry

/-- The key of an entry with a readable name: the last eight bytes of its digest. -/
def scopedKeyOf (name : String) : UInt64 :=
  (Bytes.ofBigEndian ((Hash.sha3_256 (Utf8.encode name)).bytes.drop 24)).toUInt64

def accountSchema : Schema :=
  ⟨"account_metadata", [.array "target_key" 32, .u64 "scoped_metadata_key",
    .u16 "value_size_delta", .u16 "value_size", .vector "value" "value_size"]⟩

def entitySchema : Schema :=
  ⟨"entity_metadata", [.array "target_key" 32, .u64 "scoped_metadata_key", .u64 "target_id",
    .u16 "value_size_delta", .u16 "value_size", .vector "value" "value_size"]⟩

def kind (entry : MetadataEntry) : TransactionKind :=
  match entry.entity with
  | .account => .accountMetadata
  | .mosaic _ => .mosaicMetadata
  | .namespaced _ => .namespaceMetadata

def entityFields : MetadataEntity → FieldSet
  | .account => []
  | .mosaic id => [("target_id", .scalar id.value)]
  | .namespaced id => [("target_id", .scalar id.value)]

def fields (entry : MetadataEntry) : FieldSet :=
  [("target_key", .block entry.targetKey.block), ("scoped_metadata_key", .scalar entry.scopedKey),
    ("value_size_delta", .number entry.sizeDelta.toUInt16.toNat),
    ("value_size", .number entry.value.length), ("value", .vector entry.value)]
    ++ entityFields entry.entity

def withEntity (fields : FieldSet) (entity : MetadataEntity) :
    Except PayloadError MetadataEntry := do
  let targetKey ← Content.keyIn fields "target_key"
  let scopedKey ← fields.scalar "scoped_metadata_key"
  let sizeDelta ← fields.scalar16 "value_size_delta"
  let value ← fields.vector "value"
  .ok ⟨targetKey, scopedKey, entity, sizeDelta.toInt16, value⟩

def ofAccountFields (fields : FieldSet) : Except PayloadError MetadataEntry :=
  withEntity fields .account

def ofMosaicFields (fields : FieldSet) : Except PayloadError MetadataEntry := do
  withEntity fields (.mosaic ⟨← fields.scalar "target_id"⟩)

def ofNamespacedFields (fields : FieldSet) : Except PayloadError MetadataEntry := do
  withEntity fields (.namespaced ⟨← fields.scalar "target_id"⟩)

end MetadataEntry

end LedgerTx
