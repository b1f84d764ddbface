import LedgerTx.Operation.Account

/-! # Contracts -/

namespace LedgerTx

open Layout (FieldSet Value Schema FieldSpec)

structure ContractChange where
  durationDelta : Int64
  contentHash : Block 32
  customers : List (Modification PublicKey)
  executors : List (Modification PublicKey)
  verifiers : List (Modification PublicKey)
deriving DecidableEq

namespace ContractChange

def schema : Schema :=
  ⟨"modify_contract", [.u64 "duration_delta", .array "hash" 32, .u8 "customers_count",
    .u8 "executors_count", .u8 "verifiers_count",
    .tables "customers" cosignatorySchema "customers_count",
    .tables "executors" cosignatorySchema "executors_count",
    .tables "verifiers" cosignatorySchema "verifiers_count"]⟩

def fields (contract : ContractChange) : FieldSet :=
  [("duration_delta", .scalar contract.durationDelta.toUInt64),
    ("hash", .block contract.contentHash),
    ("customers_count", .number contract.customers.length),
    ("executors_count", .number contract.executors.length),
    ("verifiers_count", .number contract.verifiers.length),
    ("customers", .tableArray (cosignatoryFields contract.customers)),
    ("executors", .tableArray (cosignatoryFields contract.executors)),
    ("verifiers", .tableArray (cosignatoryFields contract.verifiers))]

def ofFields (fields : FieldSet) : Except PayloadError ContractChange := do
  let durationDelta ← fields.scalar "duration_delta"
  let contentHash ← fields.block 32 "hash"
  let customers ← (← fields.tableArray "customers").mapM cosignatoryOf
  let executors ← (← fields.tableArray "executors").mapM cosignatoryOf
  let verifiers ← (← fields.tableArray "verifiers").mapM cosignatoryOf
  .ok ⟨durationDelta.toInt64, contentHash, customers, executors, verifiers⟩

end ContractChange

end LedgerTx
