import LedgerTx.Layout.Schema
import LedgerTx.Mosaic
import LedgerTx.Operation.Change
import LedgerTx.Operation.Content

/-!
# Account operations

Allow and block lists over addresses, mosaics or transaction kinds, the
cosignatories of a multisignature account, and the link to a remote key.
-/

namespace LedgerTx

open Layout (FieldSet Value Schema FieldSpec)

/-! ## Allow and block lists -/

inductive FilterTarget where
  | address
  | mosaic
  | kind
deriving DecidableEq

def FilterTarget.name : FilterTarget → String
  | address => "Address"
  | mosaic => "Mosaic"
  | kind => "EntityType"

/-- An allow or a block list; block lists have bit 7 of the code set. -/
inductive FilterType where
  | allowAddress
  | allowMosaic
  | allowKind
  | blockAddress
  | blockMosaic
  | blockKind
deriving DecidableEq

instance : Coded FilterType where
  all := [.allowAddress, .allowMosaic, .allowKind, .blockAddress, .blockMosaic, .blockKind]
  code
    | .allowAddress => 0x01
    | .allowMosaic => 0x02
    | .allowKind => 0x04
    | .blockAddress => 0x81
    | .blockMosaic => 0x82
    | .blockKind => 0x84
  name
    | .allowAddress => "AllowAddress"
    | .allowMosaic => "AllowMosaic"
    | .allowKind => "AllowTransaction"
    | .blockAddress => "BlockAddress"
    | .blockMosaic => "BlockMosaic"
    | .blockKind => "BlockTransaction"
  mem_all a := by cases a <;> simp
  nodup_codes := by decide

namespace FilterType

def target : FilterType → FilterTarget
  | allowAddress | blockAddress => .address
  | allowMosaic | blockMosaic => .mosaic
  | allowKind | blockKind => .kind

def isBlock (type : FilterType) : Bool := (Coded.code type).testBit 7

end FilterType

inductive FilterChanges where
  | address (list : List (Modification Address))
  | mosaic (list : List (Modification MosaicId))
  | kind (list : List (Modification TransactionKind))
deriving DecidableEq

namespace FilterChanges

def target : FilterChanges → FilterTarget
  | address _ => .address
  | mosaic _ => .mosaic
  | kind _ => .kind

def length : FilterChanges → Nat
  | address list => list.length
  | mosaic list => list.length
  | kind list => list.length

end FilterChanges

/-- Changes an allow or a block list of an account. -/
structure AccountFilter where
  type : FilterType
  changes : FilterChanges
deriving DecidableEq

namespace AccountFilter

/-- The layout of a list change whose entries have the given layout. -/
def listSchema (name : String) (entry : Schema) : Schema :=
  ⟨name, [.u8 "property_type", .u8 "modifications_count",
    .tables "modifications" entry "modifications_count"]⟩

def addressSchema : Schema :=
  listSchema "account_properties_address"
    ⟨"address_property_modification", [.u8 "type", .array "value" 25]⟩

def mosaicSchema : Schema :=
  listSchema "account_properties_mosaic"
    ⟨"mosaic_property_modification", [.u8 "type", .u64 "value"]⟩

def kindSchema : Schema :=
  listSchema "account_properties_entity_type"
    ⟨"entity_type_property_modification", [.u8 "type", .u16 "value"]⟩

def kind (filter : AccountFilter) : TransactionKind :=
  match filter.changes with
  | .address _ => .accountPropertiesAddress
  | .mosaic _ => .accountPropertiesMosaic
  | .kind _ => .accountPropertiesEntityType

def changeFields {α : Type} (write : α → Value) (m : Modification α) : FieldSet :=
  [("type", .coded m.change), ("value", write m.value)]

def changesFields : FilterChanges → List FieldSet
  | .address list => list.map (changeFields fun address => .block address.toBlock)
  | .mosaic list => list.map (changeFields fun id => .scalar id.value)
  | .kind list => list.map (changeFields .coded)

def fields (filter : AccountFilter) : FieldSet :=
  [("property_type", .coded filter.type), ("modifications_count", .number filter.changes.length),
    ("modifications", .tableArray (changesFields filter.changes))]

def changeOf {α : Type} (read : FieldSet → Except PayloadError α) (fields : FieldSet) :
    Except PayloadError (Modification α) := do
  let change ← Content.coded Change fields "type"
  let value ← read fields
  .ok ⟨change, value⟩

/-- The list change of a table, its entries read one by one. -/
def ofFieldsWith {α : Type} (read : FieldSet → Except PayloadError α)
    (wrap : List (Modification α) → FilterChanges) (fields : FieldSet) :
    Except PayloadError AccountFilter := do
  let changes ← (← fields.tableArray "modifications").mapM (changeOf read)
  let type ← Content.coded FilterType fields "property_type"
  .ok ⟨type, wrap changes⟩

def ofAddressFields : FieldSet → Except PayloadError AccountFilter :=
  ofFieldsWith (fun entry => Content.address entry "value") .address

def ofMosaicFields : FieldSet → Except PayloadError AccountFilter :=
  ofFieldsWith (fun entry => do .ok ⟨← entry.scalar "value"⟩) .mosaic

def ofKindFields : FieldSet → Except PayloadError AccountFilter :=
  ofFieldsWith (fun entry => Content.coded TransactionKind entry "value") .kind

end AccountFilter

/-! ## Cosignatories -/

def cosignatorySchema : Schema :=
  ⟨"cosignatory_modification", [.u8 "type", .array "cosignatory" 32]⟩

def cosignatoryFields (list : List (Modification PublicKey)) : List FieldSet :=
  list.map fun m => [("type", .coded m.change), ("cosignatory", .block m.value.block)]

def cosignatoryOf (fields : FieldSet) : Except PayloadError (Modification PublicKey) := do
  let change ← Content.coded Change fields "type"
  let key ← Content.keyIn fields "cosignatory"
  .ok ⟨change, key⟩

/-- Changes the cosignatories of an account and how many of them must sign. -/
structure Multisig where
  approvalDelta : Int8
  removalDelta : Int8
  changes : List (Modification PublicKey)
deriving DecidableEq

namespace Multisig

def schema : Schema :=
  ⟨"modify_multisig_account", [.u8 "min_removal_delta", .u8 "min_approval_delta",
    .u8 "modifications_count", .tables "modifications" cosignatorySchema "modifications_count"]⟩

def fields (multisig : Multisig) : FieldSet :=
  [("min_removal_delta", .number multisig.removalDelta.toUInt8.toNat),
    ("min_approval_delta", .number multisig.approvalDelta.toUInt8.toNat),
    ("modifications_count", .number multisig.changes.length),
    ("modifications", .tableArray (cosignatoryFields multisig.changes))]

def ofFields (fields : FieldSet) : Except PayloadError Multisig := do
  let approval ← fields.scalar8 "min_approval_delta"
  let removal ← fields.scalar8 "min_removal_delta"
  let changes ← (← fields.tableArray "modifications").mapM cosignatoryOf
  .ok ⟨approval.toInt8, removal.toInt8, changes⟩

end Multisig

/-! ## Remote keys -/

/-- Links an account to a remote key, or ends the link. -/
structure AccountLink where
  remote : PublicKey
  action : LinkAction
deriving DecidableEq

namespace AccountLink

def schema : Schema :=
  ⟨"account_link", [.array "remote_public_key" 32, .u8 "action"]⟩

def fields (link : AccountLink) : FieldSet :=
  [("remote_public_key", .block link.remote.block), ("action", .coded link.action)]

def ofFields (fields : FieldSet) : Except PayloadError AccountLink := do
  let remote ← Content.keyIn fields "remote_public_key"
  let action ← Content.coded LinkAction fields "action"
  .ok ⟨remote, action⟩

end AccountLink

end LedgerTx
