import LedgerTx.Coded

/-! # Changes -/

namespace LedgerTx

inductive Change where
  | add
  | remove
deriving DecidableEq

instance : Coded Change where
  all := [.add, .remove]
  code
    | .add => 0
    | .remove => 1
  name
    | .add => "Add"
    | .remove => "Remove"
  mem_all a := by cases a <;> simp
  nodup_codes := by decide

inductive LinkAction where
  | link
  | unlink
deriving DecidableEq

instance : Coded LinkAction where
  all := [.link, .unlink]
  code
    | .link => 0
    | .unlink => 1
  name
    | .link => "Link"
    | .unlink => "Unlink"
  mem_all a := by cases a <;> simp
  nodup_codes := by decide

/-- An entry with the change made to it. -/
structure Modification (α : Type) where
  change : Change
  value : α
deriving DecidableEq

end LedgerTx
