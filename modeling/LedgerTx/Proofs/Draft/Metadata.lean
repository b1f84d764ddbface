import LedgerTx.Proofs.Draft.Refusal

/-!
# Entries of metadata in drafts

An entry carries the sum of the current and the new value, filled up with
zero bytes to one length, and by how much the new value is longer.  From the
current value and the entry the new value follows, also when it is shorter
or ends in zero bytes.
-/

namespace LedgerTx

/-! ## Applying an entry -/

namespace MetadataEntry

def kept (entry : MetadataEntry) (old : Bytes) : Int :=
  old.length + entry.sizeDelta.toInt

/-- What an entry makes of a current value. -/
def apply (entry : MetadataEntry) (old : Bytes) : Bytes :=
  (Bytes.xor entry.value (Bytes.padTo entry.value.length old)).take (entry.kept old).toNat

structure Updates (entry : MetadataEntry) (old new : Bytes) : Prop where
  length_value : entry.value.length = max old.length new.length
  sizeDelta : entry.sizeDelta.toInt = new.length - old.length
  kept_nonneg : 0 ≤ entry.kept old
  kept_le : entry.kept old ≤ entry.value.length
  apply_eq : entry.apply old = new

/-- An entry with the names of a draft that updates its current value to its new one. -/
structure Sets (entry : MetadataEntry) (draft : MetadataEntryDraft) : Prop
    extends entry.Updates draft.oldValue draft.value where
  targetKey : entry.targetKey = draft.targetKey
  scopedKey : entry.scopedKey = draft.scopedKey
  entity : entry.entity = draft.entity

end MetadataEntry

namespace MetadataEntryDraft

variable {draft : MetadataEntryDraft} {entry : MetadataEntry}

structure Allowed (draft : MetadataEntryDraft) : Prop where
  value_le : draft.value.length ≤ 1024
  oldValue_le : draft.oldValue.length ≤ 1024
  differs : draft.value ≠ draft.oldValue

theorem exists_finish_iff : (∃ entry, draft.finish = .ok entry) ↔ draft.Allowed := by
  constructor
  · rintro ⟨entry, h⟩
    obtain ⟨hnew, hold, hdiffers, -⟩ := finish_eq_ok.mp h
    exact ⟨hnew, hold, hdiffers⟩
  · rintro ⟨hnew, hold, hdiffers⟩
    exact ⟨_, finish_eq_ok.mpr ⟨hnew, hold, hdiffers, rfl⟩⟩

/-- The current value added to the difference is the new one, filled up with zero bytes. -/
theorem xor_difference (new old : Bytes) :
    Bytes.xor (difference new old) (Bytes.padTo (max new.length old.length) old)
      = Bytes.padTo (max new.length old.length) new := by
  apply Bytes.xor_xor_cancel
  rw [Bytes.length_padTo (Nat.le_max_left _ _), Bytes.length_padTo (Nat.le_max_right _ _)]

theorem toInt_sizeDelta {new old : Bytes} (hnew : new.length ≤ 1024) (hold : old.length ≤ 1024) :
    (Int16.ofInt (new.length - old.length)).toInt = new.length - old.length := by
  apply Int16.toInt_ofInt_of_le
  · omega
  · omega

theorem updates_of_finish (h : draft.finish = .ok entry) :
    entry.Updates draft.oldValue draft.value := by
  obtain ⟨hnew, hold, -, rfl⟩ := finish_eq_ok.mp h
  have hdelta := toInt_sizeDelta hnew hold
  have hlength := Draft.length_difference draft.value draft.oldValue
  have hkept : MetadataEntry.kept ⟨draft.targetKey, draft.scopedKey, draft.entity,
      Int16.ofInt (draft.value.length - draft.oldValue.length),
      difference draft.value draft.oldValue⟩ draft.oldValue = draft.value.length := by
    rw [MetadataEntry.kept, hdelta]
    omega
  refine ⟨hlength.trans (Nat.max_comm _ _), hdelta, ?_, ?_, ?_⟩
  · rw [hkept]
    exact Int.natCast_nonneg _
  · rw [hkept, hlength]
    exact Int.ofNat_le.mpr (Nat.le_max_left _ _)
  · rw [MetadataEntry.apply, hkept, hlength, xor_difference, Int.toNat_natCast, Bytes.take_padTo]

theorem sets_of_finish (h : draft.finish = .ok entry) : entry.Sets draft := by
  have hupdates := updates_of_finish h
  obtain ⟨-, -, -, rfl⟩ := finish_eq_ok.mp h
  exact ⟨hupdates, rfl, rfl, rfl⟩

theorem field_of_finish {fault : DraftFault} (h : draft.finish = .error fault) :
    ¬draft.Allowed ∧ fault.fault.field ∈ ["value", "old_value"] := by
  rw [finish, refuse_eq_error, refuse_eq_error, refuse_eq_error] at h
  obtain ⟨hlong, rfl⟩ | ⟨-, ⟨hlong, rfl⟩ | ⟨-, ⟨hsame, rfl⟩ | ⟨-, h⟩⟩⟩ := h
  · exact ⟨fun hallowed => absurd hallowed.value_le (Nat.not_le.mpr hlong), List.mem_cons_self⟩
  · exact ⟨fun hallowed => absurd hallowed.oldValue_le (Nat.not_le.mpr hlong),
      .tail _ List.mem_cons_self⟩
  · exact ⟨fun hallowed => hallowed.differs hsame, List.mem_cons_self⟩
  · cases h

theorem writable_of_finish (h : draft.finish = .ok entry) :
    (Operation.metadataEntry entry).Writable where
  sized := by
    have hallowed := exists_finish_iff.mp ⟨entry, h⟩
    show entry.value.length < 2 ^ 16
    rw [(updates_of_finish h).length_value]
    exact Nat.lt_of_le_of_lt (Nat.max_le.mpr ⟨hallowed.oldValue_le, hallowed.value_le⟩)
      (by decide)
  uncounted_le := Nat.zero_le _

end MetadataEntryDraft

/-! ## Building an entry -/

namespace Draft

variable {draft : MetadataEntryDraft}

theorem exists_body_metadataEntry :
    (∃ body, (metadataEntry draft).body = .ok body) ↔ draft.Allowed :=
  exists_completed_iff.trans MetadataEntryDraft.exists_finish_iff

theorem sendable_metadataEntry (haccepted : draft.targetKey.Accepted) :
    (metadataEntry draft).Sendable where
  accepted := by
    intro key hkey
    rw [List.mem_singleton.mp hkey]
    exact haccepted
  noProof := fun _ hdraft => nomatch hdraft
  changes_le := fun _ hdraft => nomatch hdraft
  built := fun _ _ hdraft => nomatch hdraft
  pieces_le := fun _ _ _ hdraft => nomatch hdraft

end Draft

/--
An entry is built exactly for two different values of at most 1024 bytes,
whatever the envelope: other values are refused for themselves, and these
only for a deadline or a fee that is no word.  The entry that is built is as
long as the longer value, and its size difference is that of the values.  It
makes the new value of the current one, and is read as it was written.
-/
theorem MetadataEntryDraft.built_updates (draft : MetadataEntryDraft) (settings : Settings)
    (envelope : Envelope) :
    ((∃ embedded, (Draft.metadataEntry draft).buildEmbedded settings envelope = .ok embedded)
      ↔ draft.Allowed)
    ∧ (∀ fee deadline now, envelope.maxFee = some fee → envelope.deadline = some deadline →
      ((∃ tx, (Draft.metadataEntry draft).build settings envelope now = .ok tx)
        ↔ draft.Allowed))
    ∧ (∀ fault, (Draft.metadataEntry draft).buildEmbedded settings envelope = .error fault →
      ¬draft.Allowed ∧ fault.fault.field ∈ ["value", "old_value"])
    ∧ (∀ now fault, (Draft.metadataEntry draft).build settings envelope now = .error fault →
      ¬draft.Allowed ∧ fault.fault.field ∈ ["value", "old_value"]
        ∨ draft.Allowed ∧ (fault = .feeOverflow ∨ ∃ cause, fault = .deadline cause))
    ∧ (∀ now tx, (Draft.metadataEntry draft).build settings envelope now = .ok tx →
      draft.Allowed ∧ ∃ entry : MetadataEntry, tx.body = .operation (.metadataEntry entry)
        ∧ entry.Sets draft
        ∧ (draft.targetKey.Accepted →
          ∃ bytes, tx.write = .ok bytes ∧ Transaction.read bytes = .ok tx))
    ∧ ∀ embedded, (Draft.metadataEntry draft).buildEmbedded settings envelope = .ok embedded →
      ∃ entry : MetadataEntry, embedded.body = .operation (.metadataEntry entry)
        ∧ entry.Sets draft
        ∧ (draft.targetKey.Accepted →
          ∃ bytes, embedded.write = .ok bytes ∧ Embedded.read bytes = .ok embedded) := by
  have hsingle : (Draft.metadataEntry draft).Single := .of_completed rfl
  have hbody : _ ↔ draft.Allowed := Draft.exists_body_metadataEntry
  refine ⟨hsingle.exists_buildEmbedded_iff.trans hbody, ?_, ?_, ?_, ?_, ?_⟩
  · intro fee deadline now hfee hdeadline
    exact (hsingle.exists_build_iff hfee hdeadline).trans hbody
  · intro fault hfault
    exact field_of_finish (Draft.completed_eq_error.mp (hsingle.buildEmbedded_eq_error.mp hfault))
  · intro now fault hfault
    cases hfinish : draft.finish with
    | error cause =>
        have hrefused : (Draft.metadataEntry draft).build settings envelope now = .error cause :=
          bind_eq_error.mpr (.inl (Draft.completed_eq_error.mpr hfinish))
        cases hrefused.symm.trans hfault
        exact .inl (field_of_finish hfinish)
    | ok entry =>
        have hentry : (Draft.metadataEntry draft).body = .ok (.operation (.metadataEntry entry)) :=
          Draft.completed_eq_ok.mpr ⟨entry, hfinish, rfl⟩
        exact .inr ⟨exists_finish_iff.mp ⟨entry, hfinish⟩,
          Draft.build_eq_error_of_writable hentry (writable_of_finish hfinish) hfault⟩
  · intro now tx htx
    obtain ⟨body, deadline, fee, hcompleted, -, -, -, rfl⟩ := Draft.build_eq_ok.mp htx
    obtain ⟨entry, hentry, rfl⟩ := Draft.completed_eq_ok.mp hcompleted
    refine ⟨exists_finish_iff.mp ⟨entry, hentry⟩, entry, rfl, sets_of_finish hentry, ?_⟩
    intro haccepted
    obtain ⟨hkeys, bytes, hwrite⟩ :=
      Draft.write_of_build (Draft.sendable_metadataEntry haccepted) htx
    exact ⟨bytes, hwrite, Transaction.read_of_write hkeys hwrite⟩
  · intro embedded hembedded
    obtain ⟨body, hcompleted, -, rfl⟩ := Draft.buildEmbedded_eq_ok.mp hembedded
    obtain ⟨entry, hentry, rfl⟩ := Draft.completed_eq_ok.mp hcompleted
    refine ⟨entry, rfl, sets_of_finish hentry, ?_⟩
    intro haccepted
    obtain ⟨hkeys, bytes, hwrite⟩ :=
      Draft.write_of_buildEmbedded (Draft.sendable_metadataEntry haccepted).toPlain hembedded
    exact ⟨bytes, hwrite, Embedded.read_of_write hkeys hwrite⟩

/-- A value of four bytes that is shortened and still ends in a zero byte. -/
def MetadataEntryDraft.shortened : MetadataEntryDraft :=
  ⟨.base, 1, .account, [7, 0], [7, 8, 9, 0]⟩

def MetadataEntryDraft.unchanged : MetadataEntryDraft :=
  { shortened with value := [7, 8, 9, 0] }

theorem MetadataEntryDraft.built_updates_shortened :
    shortened.Allowed
      ∧ (∃ tx bytes, (Draft.metadataEntry shortened).build Draft.freeSettings
          Draft.fixedEnvelope 0 = .ok tx
        ∧ tx.body = .operation (.metadataEntry ⟨.base, 1, .account, -2, [0, 8, 9, 0]⟩)
        ∧ (⟨.base, 1, .account, -2, [0, 8, 9, 0]⟩ : MetadataEntry).Sets shortened
        ∧ tx.write = .ok bytes ∧ Transaction.read bytes = .ok tx)
      ∧ (∃ embedded bytes, (Draft.metadataEntry shortened).buildEmbedded Draft.freeSettings
          Draft.fixedEnvelope = .ok embedded
        ∧ embedded.write = .ok bytes ∧ Embedded.read bytes = .ok embedded)
      ∧ ¬unchanged.Allowed
      ∧ ∃ fault, (Draft.metadataEntry unchanged).build Draft.freeSettings
          Draft.fixedEnvelope 0 = .error fault
        ∧ fault.fault.field ∈ ["value", "old_value"] := by
  obtain ⟨hembedded, hbuild, -, -, hbuilt, hread⟩ :=
    built_updates shortened Draft.freeSettings Draft.fixedEnvelope
  obtain ⟨-, -, hunembedded, -⟩ :=
    built_updates unchanged Draft.freeSettings Draft.fixedEnvelope
  have hallowed : shortened.Allowed := ⟨by decide, by decide, by decide⟩
  have hsame : (Draft.metadataEntry unchanged).body = .error .sameValue := rfl
  obtain ⟨hnot, hfield⟩ := hunembedded .sameValue (bind_eq_error.mpr (.inl hsame))
  obtain ⟨tx, htx⟩ := (hbuild 100 ⟨1000⟩ 0 rfl rfl).mpr hallowed
  obtain ⟨-, entry, hbody, hsets, hwritten⟩ := hbuilt 0 tx htx
  obtain ⟨bytes, hwrite, hback⟩ := hwritten PublicKey.accepted_base
  obtain ⟨embedded, hmade⟩ := hembedded.mpr hallowed
  obtain ⟨-, -, -, hinner⟩ := hread embedded hmade
  obtain ⟨innerBytes, hinnerWrite, hinnerBack⟩ := hinner PublicKey.accepted_base
  have hexact : (Draft.metadataEntry shortened).build Draft.freeSettings Draft.fixedEnvelope 0
      = .ok ⟨.testNet, 1, 100, ⟨1000⟩, none,
        .operation (.metadataEntry ⟨.base, 1, .account, -2, [0, 8, 9, 0]⟩)⟩ := rfl
  cases htx.symm.trans hexact
  cases hbody
  refine ⟨hallowed, ⟨_, bytes, hexact, rfl, hsets, hwrite, hback⟩,
    ⟨embedded, innerBytes, hmade, hinnerWrite, hinnerBack⟩, hnot, _, ?_, hfield⟩
  exact bind_eq_error.mpr (.inl hsame)

end LedgerTx
