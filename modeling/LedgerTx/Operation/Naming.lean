import LedgerTx.Layout.Schema
import LedgerTx.Mosaic
import LedgerTx.Operation.Change
import LedgerTx.Operation.Content

/-! # Naming operations -/

namespace LedgerTx

open Layout (FieldSet Value Schema FieldSpec)

inductive NamespaceLevel where
  | root
  | sub
deriving DecidableEq

instance : Coded NamespaceLevel where
  all := [.root, .sub]
  code
    | .root => 0
    | .sub => 1
  name
    | .root => "Root"
    | .sub => "Sub"
  mem_all a := by cases a <;> simp
  nodup_codes := by decide

/-- A root namespace is rented for some blocks; any other has a parent. -/
inductive Tenure where
  | root (duration : UInt64)
  | sub (parent : NamespaceId)
deriving DecidableEq

namespace Tenure

def level : Tenure → NamespaceLevel
  | root _ => .root
  | sub _ => .sub

/-- The word that the tenure is written as. -/
def word : Tenure → UInt64
  | root duration => duration
  | sub parent => parent.value

def ofWord (word : UInt64) : NamespaceLevel → Tenure
  | .root => root word
  | .sub => sub ⟨word⟩

end Tenure

structure Registration where
  name : String
  id : NamespaceId
  tenure : Tenure
deriving DecidableEq

namespace Registration

def schema : Schema :=
  ⟨"register_namespace", [.u8 "namespace_type", .u64 "duration_or_parent", .u64 "namespace_id",
    .u8 "name_size", .vector "name" "name_size"]⟩

def fields (registration : Registration) : FieldSet :=
  [("namespace_type", .coded registration.tenure.level),
    ("duration_or_parent", .scalar registration.tenure.word),
    ("namespace_id", .scalar registration.id.value),
    ("name_size", .number (Utf8.size registration.name)), ("name", .text registration.name)]

def ofFields (fields : FieldSet) : Except PayloadError Registration := do
  let word ← fields.scalar "duration_or_parent"
  let level ← Content.coded NamespaceLevel fields "namespace_type"
  let name ← Content.text "name" (← fields.vector "name")
  let id ← fields.scalar "namespace_id"
  .ok ⟨name, ⟨id⟩, .ofWord word level⟩

end Registration

/-- What a namespace can stand for. -/
inductive LinkTarget where
  | address (address : Address)
  | mosaic (id : MosaicId)
deriving DecidableEq

structure NameLink where
  action : LinkAction
  id : NamespaceId
  target : LinkTarget
deriving DecidableEq

namespace NameLink

def addressSchema : Schema :=
  ⟨"address_alias", [.u8 "action", .u64 "namespace_id", .array "address" 25]⟩

def mosaicSchema : Schema :=
  ⟨"mosaic_alias", [.u8 "action", .u64 "namespace_id", .u64 "mosaic_id"]⟩

def kind (link : NameLink) : TransactionKind :=
  match link.target with
  | .address _ => .addressAlias
  | .mosaic _ => .mosaicAlias

def targetField : LinkTarget → String × Value
  | .address address => ("address", .block address.toBlock)
  | .mosaic id => ("mosaic_id", .scalar id.value)

def fields (link : NameLink) : FieldSet :=
  [("action", .coded link.action), ("namespace_id", .scalar link.id.value),
    targetField link.target]

def withTarget (fields : FieldSet) (target : LinkTarget) : Except PayloadError NameLink := do
  let action ← Content.coded LinkAction fields "action"
  let id ← fields.scalar "namespace_id"
  .ok ⟨action, ⟨id⟩, target⟩

def ofAddressFields (fields : FieldSet) : Except PayloadError NameLink := do
  withTarget fields (.address (← Content.address fields "address"))

def ofMosaicFields (fields : FieldSet) : Except PayloadError NameLink := do
  withTarget fields (.mosaic ⟨← fields.scalar "mosaic_id"⟩)

end NameLink

end LedgerTx
