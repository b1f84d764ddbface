import LedgerTx.Layout.Schema
import LedgerTx.Operation.Content

/-! # Storage drives -/

namespace LedgerTx

open Layout (FieldSet Value Schema FieldSpec)

structure DrivePreparation where
  owner : PublicKey
  duration : UInt64
  billingPeriod : UInt64
  billingPrice : UInt64
  size : UInt64
  replicas : UInt16
  minReplicators : UInt16
  percentApprovers : UInt8
deriving DecidableEq

namespace DrivePreparation

def schema : Schema :=
  ⟨"drive_prepare", [.array "owner" 32, .u64 "duration", .u64 "billing_period",
    .u64 "billing_price", .u64 "drive_size", .u16 "replicas", .u16 "min_replicators",
    .u8 "percent_approvers"]⟩

def fields (drive : DrivePreparation) : FieldSet :=
  [("owner", .block drive.owner.block), ("duration", .scalar drive.duration),
    ("billing_period", .scalar drive.billingPeriod),
    ("billing_price", .scalar drive.billingPrice), ("drive_size", .scalar drive.size),
    ("replicas", .number drive.replicas.toNat),
    ("min_replicators", .number drive.minReplicators.toNat),
    ("percent_approvers", .number drive.percentApprovers.toNat)]

def ofFields (fields : FieldSet) : Except PayloadError DrivePreparation := do
  let owner ← Content.keyIn fields "owner"
  let duration ← fields.scalar "duration"
  let billingPeriod ← fields.scalar "billing_period"
  let billingPrice ← fields.scalar "billing_price"
  let size ← fields.scalar "drive_size"
  let replicas ← fields.scalar16 "replicas"
  let minReplicators ← fields.scalar16 "min_replicators"
  let percentApprovers ← fields.scalar8 "percent_approvers"
  .ok { owner, duration, billingPeriod, billingPrice, size, replicas, minReplicators,
        percentApprovers }

end DrivePreparation

end LedgerTx
