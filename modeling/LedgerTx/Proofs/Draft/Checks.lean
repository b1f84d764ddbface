import LedgerTx.Draft.Basic
import LedgerTx.Proofs.Result

/-!
# What the checks of drafts accept

Each check of a draft succeeds exactly when its limits are kept, and a draft
that is completed keeps what it is made of.
-/

namespace LedgerTx

/-! ## Lists without repetition -/

theorem Transfer.check_eq_ok {transfer : Transfer} : transfer.check = .ok ()
    ↔ transfer.mosaics.length ≤ maxMosaics ∧ (transfer.mosaics.map Mosaic.id).Nodup
      ∧ transfer.message.payload.length ≤ maxMessageSize := by
  rw [check, refuse_eq_ok, Nat.not_lt, ← Draft.firstRepeat?_eq_none_iff]
  split
  · rename_i mosaic hrepeated
    simp [hrepeated]
  · rename_i hdistinct
    simp [hdistinct]

theorem MultisigDraft.finish_eq_ok {draft : MultisigDraft} {multisig : Multisig} :
    draft.finish = .ok multisig
      ↔ narrow "min_approval_delta" draft.approvalDelta = .ok multisig.approvalDelta
        ∧ narrow "min_removal_delta" draft.removalDelta = .ok multisig.removalDelta
        ∧ draft.changes.length ≤ Multisig.maxChanges
        ∧ (draft.changes.map Modification.value).Nodup
        ∧ ¬(draft.changes = [] ∧ multisig.approvalDelta = 0 ∧ multisig.removalDelta = 0)
        ∧ multisig.changes = draft.changes := by
  rw [finish, bind_eq_ok, ← Draft.firstRepeat?_eq_none_iff]
  simp only [bind_eq_ok, refuse_eq_ok, Nat.not_lt]
  constructor
  · rintro ⟨approval, happroval, removal, hremoval, hlength, h⟩
    split at h
    · cases h
    · rename_i hdistinct
      obtain ⟨hchange, h⟩ := refuse_eq_ok.mp h
      cases h
      exact ⟨happroval, hremoval, hlength, hdistinct, hchange, rfl⟩
  · rintro ⟨happroval, hremoval, hlength, hdistinct, hchange, hchanges⟩
    obtain ⟨approval, removal, changes⟩ := multisig
    subst hchanges
    refine ⟨approval, happroval, removal, hremoval, hlength, ?_⟩
    rw [hdistinct]
    exact refuse_eq_ok.mpr ⟨hchange, rfl⟩

theorem ContractChange.checkList_eq_ok {field : String} {changes : List (Modification PublicKey)} :
    checkList field changes = .ok ()
      ↔ changes.length ≤ maxChanges ∧ (changes.map Modification.value).Nodup := by
  rw [checkList, refuse_eq_ok, Nat.not_lt, ← Draft.firstRepeat?_eq_none_iff]
  split
  · rename_i m hrepeated
    simp [hrepeated]
  · rename_i hdistinct
    simp [hdistinct]

theorem ContractChange.check_eq_ok {contract : ContractChange} : contract.check = .ok ()
    ↔ checkList "customers" contract.customers = .ok ()
      ∧ checkList "executors" contract.executors = .ok ()
      ∧ checkList "verifiers" contract.verifiers = .ok () := by
  rw [check, then_eq_ok, then_eq_ok]

/-! ## Offers -/

theorem Offer.checkCount_eq_ok {count : Nat} :
    checkCount count = .ok () ↔ count ≠ 0 ∧ count ≤ maxCount := by
  rw [checkCount, refuse_eq_ok, refuse_eq_ok, Nat.not_lt]
  simp

theorem Offer.checkDistinct_eq_ok {keys : List (MosaicId × OfferSide)} :
    checkDistinct keys = .ok () ↔ keys.Nodup := by
  rw [checkDistinct, ← List.map_id keys, ← Draft.firstRepeat?_eq_none_iff, List.map_id]
  split
  · rename_i mosaic side hrepeated
    simp [hrepeated]
  · rename_i hdistinct
    simp [hdistinct]

theorem NewOffer.checkAll_eq_ok {offers : List NewOffer} : checkAll offers = .ok ()
    ↔ (offers.length ≠ 0 ∧ offers.length ≤ Offer.maxCount)
      ∧ (offers.map fun offer => (offer.mosaic.id, offer.side)).Nodup
      ∧ ∀ offer ∈ offers, check offer = .ok () := by
  rw [checkAll, then_eq_ok, then_eq_ok, Offer.checkCount_eq_ok, Offer.checkDistinct_eq_ok,
    forM_eq_ok]

theorem TakenOffer.checkAll_eq_ok {offers : List TakenOffer} : checkAll offers = .ok ()
    ↔ (offers.length ≠ 0 ∧ offers.length ≤ Offer.maxCount)
      ∧ ∀ offer ∈ offers, offer.mosaic.amount ≠ 0 := by
  rw [checkAll, then_eq_ok, refuse_eq_ok, Offer.checkCount_eq_ok]
  simp

theorem WithdrawnOffer.checkAll_eq_ok {offers : List WithdrawnOffer} : checkAll offers = .ok ()
    ↔ (offers.length ≠ 0 ∧ offers.length ≤ Offer.maxCount)
      ∧ (offers.map fun offer => (offer.id, offer.side)).Nodup := by
  rw [checkAll, then_eq_ok, Offer.checkCount_eq_ok, Offer.checkDistinct_eq_ok]

/-! ## Lists and texts within their bounds -/

theorem AccountFilter.check_eq_ok {filter : AccountFilter} : filter.check = .ok ()
    ↔ filter.type.target = filter.changes.target
      ∧ filter.changes.length ≠ 0 ∧ filter.changes.length ≤ maxChanges := by
  rw [check, refuse_eq_ok, refuse_eq_ok, not_or, Nat.not_lt]
  simp

theorem NamespaceName.size_le_of_checkPart {part : String} (h : checkPart part = .ok ()) :
    Utf8.size part ≤ maxSize := by
  unfold checkPart at h
  split at h
  · cases h
  · obtain ⟨-, h⟩ := refuse_eq_ok.mp h
    split at h
    · cases h
    · exact Nat.not_lt.mp (refuse_eq_ok.mp h).1

theorem Registration.ofDraft_eq_ok {name : String} {tenure : Tenure}
    {registration : Registration} : ofDraft name tenure = .ok registration
    ↔ NamespaceName.checkPart name = .ok ()
      ∧ ∃ parent, parentOf tenure = .ok parent
        ∧ NamespaceId.derive parent name = .ok registration.id
        ∧ registration.name = name ∧ registration.tenure = tenure := by
  rw [ofDraft]
  constructor
  · intro h
    split at h
    · cases h
    · rename_i hpart
      obtain ⟨parent, hparent, h⟩ := bind_eq_ok.mp h
      split at h
      · cases h
      · rename_i id hid
        cases h
        exact ⟨hpart, parent, hparent, hid, rfl, rfl⟩
  · rintro ⟨hpart, parent, hparent, hid, hname, htenure⟩
    obtain ⟨_, id, _⟩ := registration
    subst hname htenure
    rw [hpart]
    refine bind_eq_ok.mpr ⟨parent, hparent, ?_⟩
    rw [hid]

theorem MetadataChange.check_eq_ok {change : MetadataChange} : change.check = .ok ()
    ↔ (Utf8.size change.key ≠ 0 ∧ Utf8.size change.key ≤ maxKeySize)
      ∧ (change.change = .add → Utf8.size change.value ≤ maxValueSize)
      ∧ (change.change = .remove → change.value = "") := by
  rw [check, refuse_eq_ok, not_or, Nat.not_lt]
  cases change.change with
  | add => simp
  | remove => simp

/-- The value of an accepted change is within its bound, also when it is removed. -/
theorem MetadataChange.value_le_of_check {change : MetadataChange} (h : change.check = .ok ()) :
    Utf8.size change.value ≤ maxValueSize := by
  obtain ⟨-, hadd, hremove⟩ := check_eq_ok.mp h
  cases hchange : change.change with
  | add => exact hadd hchange
  | remove =>
      rw [hremove hchange]
      decide

theorem MetadataChanges.check_eq_ok {metadata : MetadataChanges} : metadata.check = .ok ()
    ↔ metadata.changes ≠ [] ∧ ∀ change ∈ metadata.changes, change.check = .ok () := by
  rw [check, refuse_eq_ok, ← forM_eq_ok]

theorem MetadataEntryDraft.finish_eq_ok {draft : MetadataEntryDraft} {entry : MetadataEntry} :
    draft.finish = .ok entry ↔ draft.value.length ≤ MetadataChange.maxValueSize
      ∧ draft.oldValue.length ≤ MetadataChange.maxValueSize ∧ draft.value ≠ draft.oldValue
      ∧ entry = ⟨draft.targetKey, draft.scopedKey, draft.entity,
        Int16.ofInt (draft.value.length - draft.oldValue.length),
        difference draft.value draft.oldValue⟩ := by
  rw [finish, refuse_eq_ok, refuse_eq_ok, refuse_eq_ok, Nat.not_lt, Nat.not_lt, Except.ok.injEq,
    @eq_comm _ entry]

theorem NetworkConfig.check_eq_ok {settings : NetworkConfig} : settings.check = .ok ()
    ↔ settings.config ≠ "" ∧ Utf8.size settings.config ≤ maxTextSize
      ∧ Utf8.size settings.entityVersions ≤ maxTextSize := by
  rw [check, refuse_eq_ok, refuse_eq_ok, refuse_eq_ok, Nat.not_lt, Nat.not_lt]
  simp

/-! ## Mosaic definitions -/

/-- A definition is accepted for the id and the nonce that the owner derives from the nonce. -/
theorem MosaicDefinition.check_eq_ok {owner : PublicKey} {definition : MosaicDefinition} :
    definition.check owner = .ok ()
      ↔ definition.properties.divisibility.toNat ≤ MosaicProperties.maxDivisibility
        ∧ definition.properties.duration ≠ some 0
        ∧ MosaicId.derive owner definition.nonce = .ok (definition.id, definition.nonce) := by
  rw [check, refuse_eq_ok, refuse_eq_ok, Nat.not_lt]
  refine and_congr_right fun _ => and_congr_right fun _ => ?_
  cases MosaicId.derive owner definition.nonce with
  | error cause => simp
  | ok found =>
      obtain ⟨id, nonce⟩ := found
      simp only [refuse_eq_ok, not_not, Except.ok.injEq, Prod.mk.injEq, and_true]

/-! ## Secrets -/

theorem SecretProof.check_eq_ok {proof : SecretProof} : proof.check = .ok ()
    ↔ proof.proof ≠ [] ∧ proof.commitment.secret proof.proof = proof.secret := by
  rw [check, refuse_eq_ok, refuse_eq_ok, not_not]
  exact and_congr_right fun _ => and_iff_left rfl

/-! ## Bodies -/

namespace Draft

theorem checked_eq_ok {α : Type} {check : α → Except DraftFault Unit} {wrap : α → Operation}
    {a : α} {body : Body} :
    checked check wrap a = .ok body ↔ check a = .ok () ∧ body = .operation (wrap a) := by
  rw [checked, then_eq_ok, Except.ok.injEq, @eq_comm _ body]

theorem completed_eq_ok {α : Type} {result : Except DraftFault α} {wrap : α → Operation}
    {body : Body} :
    completed result wrap = .ok body ↔ ∃ a, result = .ok a ∧ body = .operation (wrap a) := by
  rw [completed, bind_eq_ok]
  constructor
  · rintro ⟨a, hresult, h⟩
    cases h
    exact ⟨a, hresult, rfl⟩
  · rintro ⟨a, hresult, rfl⟩
    exact ⟨a, hresult, rfl⟩

theorem bundle_eq_ok {bonded : Bool} {inner : List Embedded} {body : Body} :
    bundle bonded inner = .ok body ↔ inner ≠ []
      ∧ (∀ embedded ∈ inner, embedded.kind.isAggregate = false)
      ∧ body = .aggregate bonded inner [] := by
  rw [bundle, refuse_eq_ok, List.isEmpty_iff]
  cases hfind : inner.find? fun embedded => embedded.kind.isAggregate with
  | some nested =>
      have hnested := List.find?_some hfind
      have hmem := List.mem_of_find?_eq_some hfind
      constructor
      · rintro ⟨-, h⟩
        cases h
      · rintro ⟨-, hsingle, -⟩
        rw [hsingle nested hmem] at hnested
        cases hnested
  | none =>
      have hsingle := List.find?_eq_none.mp hfind
      simp only [Bool.not_eq_true] at hsingle
      simp only [Except.ok.injEq, @eq_comm _ body]
      constructor
      · rintro ⟨hnonempty, h⟩
        exact ⟨hnonempty, hsingle, h⟩
      · rintro ⟨hnonempty, -, h⟩
        exact ⟨hnonempty, h⟩

end Draft

end LedgerTx
