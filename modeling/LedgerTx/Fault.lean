/-! # Faults of single fields -/

namespace LedgerTx

/-- What is wrong with the value of one field. -/
inductive Fault where
  | missing (field : String)
  | invalid (field reason : String)
deriving DecidableEq, Repr

namespace Fault

def field : Fault → String
  | missing field => field
  | invalid field _ => field

def message : Fault → String
  | missing field => s!"missing required field: {field}"
  | invalid field reason => s!"invalid {field}: {reason}"

end Fault

end LedgerTx
