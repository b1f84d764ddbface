import LedgerTx.Draft.Distinct
import LedgerTx.Draft.Fault

/-! # Drafts of contracts -/

namespace LedgerTx.ContractChange

def blank (contentHash : Block 32) : ContractChange := ⟨0, contentHash, [], [], []⟩

/-- Refuses too many changes of one list, and two changes of one party. -/
def checkList (field : String) (changes : List (Modification PublicKey)) :
    Except DraftFault Unit :=
  if maxChanges < changes.length then .error (.tooManyParties field)
  else
    match Draft.firstRepeat? Modification.value changes with
    | some m => .error (.repeatedParty field m.value)
    | none => .ok ()

def check (contract : ContractChange) : Except DraftFault Unit := do
  checkList "customers" contract.customers
  checkList "executors" contract.executors
  checkList "verifiers" contract.verifiers

end LedgerTx.ContractChange
