import LedgerTx.Draft.Distinct
import LedgerTx.Draft.Fault

/-! # Drafts of account operations -/

namespace LedgerTx

/-- Refuses entries that are not of the list's type, no changes and too many of them. -/
def AccountFilter.check (filter : AccountFilter) : Except DraftFault Unit :=
  if filter.type.target ≠ filter.changes.target then
    .error (.filterTarget filter.type filter.changes.target)
  else if filter.changes.length = 0 ∨ maxChanges < filter.changes.length then
    .error (.changeCount filter.changes.length)
  else .ok ()

/-- A multisignature change whose deltas need not fit a byte. -/
structure MultisigDraft where
  approvalDelta : Int32 := 0
  removalDelta : Int32 := 0
  changes : List (Modification PublicKey) := []
deriving DecidableEq

namespace MultisigDraft

def narrow (field : String) (delta : Int32) : Except DraftFault Int8 :=
  if -128 ≤ delta.toInt ∧ delta.toInt ≤ 127 then .ok delta.toInt8 else .error (.delta field delta)

def change (draft : MultisigDraft) (change : Change) (key : PublicKey) : MultisigDraft :=
  { draft with changes := draft.changes ++ [⟨change, key⟩] }

/--
The multisignature change of a draft.  Refused are deltas that do not fit,
too many changes, two of one cosignatory, and a draft that changes nothing.
-/
def finish (draft : MultisigDraft) : Except DraftFault Multisig := do
  let approval ← narrow "min_approval_delta" draft.approvalDelta
  let removal ← narrow "min_removal_delta" draft.removalDelta
  if Multisig.maxChanges < draft.changes.length then .error .tooManyCosignatories
  else
    match Draft.firstRepeat? Modification.value draft.changes with
    | some m => .error (.repeatedCosignatory m.value)
    | none =>
        if draft.changes = [] ∧ approval = 0 ∧ removal = 0 then .error .noChange
        else .ok ⟨approval, removal, draft.changes⟩

end MultisigDraft

end LedgerTx
