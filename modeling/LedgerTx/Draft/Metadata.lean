import LedgerTx.Draft.Fault

/-!
# Drafts of metadata operations

Keys and values must keep their sizes.  An entry is drafted by its current
and its new value, from which its difference follows.
-/

namespace LedgerTx

/-- Refuses a key out of bounds, an added value that is too long, and a removal with a value. -/
def MetadataChange.check (change : MetadataChange) : Except DraftFault Unit :=
  let keySize := Utf8.size change.key
  if keySize = 0 ∨ maxKeySize < keySize then .error (.keySize keySize)
  else
    match change.change with
    | .add =>
        if maxValueSize < Utf8.size change.value then .error (.oversized "value" maxValueSize)
        else .ok ()
    | .remove => if change.value = "" then .ok () else .error .removalValue

def MetadataChanges.check (metadata : MetadataChanges) : Except DraftFault Unit :=
  if metadata.changes = [] then .error (.missing "modifications")
  else metadata.changes.forM MetadataChange.check

structure MetadataEntryDraft where
  targetKey : PublicKey
  scopedKey : UInt64
  entity : MetadataEntity
  value : Bytes := []
  oldValue : Bytes := []
deriving DecidableEq

namespace MetadataEntryDraft

/-- Two byte strings added byte by byte, the shorter one filled up with zero bytes. -/
def difference (new old : Bytes) : Bytes :=
  let size := max new.length old.length
  Bytes.xor (Bytes.padTo size new) (Bytes.padTo size old)

/-- The entry of a draft; values that are too long or equal are refused. -/
def finish (draft : MetadataEntryDraft) : Except DraftFault MetadataEntry :=
  if MetadataChange.maxValueSize < draft.value.length then
    .error (.oversized "value" MetadataChange.maxValueSize)
  else if MetadataChange.maxValueSize < draft.oldValue.length then
    .error (.oversized "old_value" MetadataChange.maxValueSize)
  else if draft.value = draft.oldValue then .error .sameValue
  else
    let sizeDelta := Int16.ofInt (draft.value.length - draft.oldValue.length)
    .ok ⟨draft.targetKey, draft.scopedKey, draft.entity, sizeDelta,
      difference draft.value draft.oldValue⟩

end MetadataEntryDraft

end LedgerTx
