import LedgerTx.Layout.Schema
import LedgerTx.Mosaic
import LedgerTx.Operation.Content

/-!
# Asset operations

Defining a mosaic, changing its supply, and charging or dropping a levy on
its transfers.  The duration of a mosaic is the only property besides the
flags and the divisibility.
-/

namespace LedgerTx

open Layout (FieldSet Value Schema FieldSpec)

/-! ## Definition -/

structure MosaicDefinition where
  nonce : MosaicNonce
  id : MosaicId
  properties : MosaicProperties
deriving DecidableEq

namespace MosaicDefinition

/-- The id of the duration among the listed properties. -/
def durationId : UInt8 := 2

def propertySchema : Schema := ⟨"mosaic_property", [.u8 "id", .u64 "value"]⟩

def schema : Schema :=
  ⟨"mosaic_definition", [.u32 "nonce", .u64 "mosaic_id", .u8 "properties_count", .u8 "flags",
    .u8 "divisibility", .tables "properties" propertySchema "properties_count"]⟩

def listed (properties : MosaicProperties) : List FieldSet :=
  match properties.duration with
  | none => []
  | some duration => [[("id", .number durationId.toNat), ("value", .scalar duration)]]

/-- The duration that listed properties give; of several, the last one. -/
def durationOf (duration : Option UInt64) : List FieldSet → Except PayloadError (Option UInt64)
  | [] => .ok duration
  | property :: rest => do
      let id ← property.scalar8 "id"
      if id ≠ durationId then .error (.content "properties" (.mosaicProperty id))
      else durationOf (some (← property.scalar "value")) rest

def fields (definition : MosaicDefinition) : FieldSet :=
  let properties := definition.properties
  [("nonce", .number definition.nonce.value.toNat), ("mosaic_id", .scalar definition.id.value),
    ("properties_count", .number (listed properties).length),
    ("flags", .number properties.flags.toNat),
    ("divisibility", .number properties.divisibility.toNat),
    ("properties", .tableArray (listed properties))]

def ofFields (fields : FieldSet) : Except PayloadError MosaicDefinition := do
  let duration ← durationOf none (← fields.tableArray "properties")
  let nonce ← fields.scalar32 "nonce"
  let id ← fields.scalar "mosaic_id"
  let flags ← fields.scalar8 "flags"
  let divisibility ← fields.scalar8 "divisibility"
  .ok ⟨⟨nonce⟩, ⟨id⟩, .ofFlags flags divisibility duration⟩

end MosaicDefinition

/-! ## Supply -/

inductive SupplyDirection where
  | decrease
  | increase
deriving DecidableEq

instance : Coded SupplyDirection where
  all := [.decrease, .increase]
  code
    | .decrease => 0
    | .increase => 1
  name
    | .decrease => "Decrease"
    | .increase => "Increase"
  mem_all a := by cases a <;> simp
  nodup_codes := by decide

structure SupplyChange where
  id : MosaicId
  direction : SupplyDirection
  delta : UInt64
deriving DecidableEq

namespace SupplyChange

def schema : Schema :=
  ⟨"mosaic_supply_change", [.u64 "mosaic_id", .u8 "direction", .u64 "delta"]⟩

def fields (change : SupplyChange) : FieldSet :=
  [("mosaic_id", .scalar change.id.value), ("direction", .coded change.direction),
    ("delta", .scalar change.delta)]

def ofFields (fields : FieldSet) : Except PayloadError SupplyChange := do
  let id ← fields.scalar "mosaic_id"
  let direction ← Content.coded SupplyDirection fields "direction"
  let delta ← fields.scalar "delta"
  .ok ⟨⟨id⟩, direction, delta⟩

end SupplyChange

/-! ## Levies -/

/-- Whether a levy is a fixed amount or a share of the transferred amount. -/
inductive LevyType where
  | absolute
  | percentile
deriving DecidableEq

instance : Coded LevyType where
  all := [.absolute, .percentile]
  code
    | .absolute => 1
    | .percentile => 2
  name
    | .absolute => "Absolute"
    | .percentile => "Percentile"
  mem_all a := by cases a <;> simp
  nodup_codes := by decide

/-- A charge on every transfer of a mosaic, paid in the mosaic `id` to a recipient. -/
structure Levy where
  type : LevyType
  recipient : Recipient
  id : MosaicId
  fee : UInt64
deriving DecidableEq

namespace Levy

def percent : Nat := 100000

/-- A share was too large to be written as a fee. -/
structure Overflow where
  share : UInt64
deriving DecidableEq

def Overflow.fault (overflow : Overflow) : Fault :=
  .invalid "fee" s!"{overflow.share}% overflows"

def absolute (recipient : Recipient) (id : MosaicId) (amount : UInt64) : Levy :=
  ⟨.absolute, recipient, id, amount⟩

def percentile (recipient : Recipient) (id : MosaicId) (share : UInt64) : Except Overflow Levy :=
  match Word64.ofNat? (share.toNat * percent) with
  | some fee => .ok ⟨.percentile, recipient, id, fee⟩
  | none => .error ⟨share⟩

def schema : Schema :=
  ⟨"mosaic_levy", [.u8 "type", .array "recipient" 25, .u64 "mosaic_id", .u64 "fee"]⟩

def fields (network : Network) (levy : Levy) : FieldSet :=
  [("type", .coded levy.type), ("recipient", .block (levy.recipient.toBlock network)),
    ("mosaic_id", .scalar levy.id.value), ("fee", .scalar levy.fee)]

def ofFields (fields : FieldSet) : Except PayloadError Levy := do
  let type ← Content.coded LevyType fields "type"
  let recipient ← Content.recipient fields "recipient"
  let id ← fields.scalar "mosaic_id"
  let fee ← fields.scalar "fee"
  .ok ⟨type, recipient, ⟨id⟩, fee⟩

end Levy

structure LevyChange where
  id : MosaicId
  levy : Levy
deriving DecidableEq

namespace LevyChange

def schema : Schema :=
  ⟨"modify_mosaic_levy", [.u64 "mosaic_id", .table "levy" Levy.schema]⟩

def fields (network : Network) (change : LevyChange) : FieldSet :=
  [("mosaic_id", .scalar change.id.value), ("levy", .table (change.levy.fields network))]

def ofFields (fields : FieldSet) : Except PayloadError LevyChange := do
  let levy ← fields.table "levy"
  let id ← fields.scalar "mosaic_id"
  .ok ⟨⟨id⟩, ← Levy.ofFields levy⟩

end LevyChange

structure LevyRemoval where
  id : MosaicId
deriving DecidableEq

namespace LevyRemoval

def schema : Schema := ⟨"remove_mosaic_levy", [.u64 "mosaic_id"]⟩

def fields (removal : LevyRemoval) : FieldSet :=
  [("mosaic_id", .scalar removal.id.value)]

def ofFields (fields : FieldSet) : Except PayloadError LevyRemoval := do
  .ok ⟨⟨← fields.scalar "mosaic_id"⟩⟩

end LevyRemoval

end LedgerTx
