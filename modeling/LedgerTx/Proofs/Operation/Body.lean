import LedgerTx.Proofs.Operation.Entry

/-!
# Bodies

The values of a body that fit its schema are read exactly as the operation
that they are written for.
-/

namespace LedgerTx

open Layout (FieldSet FieldSpec Value Schema Kind Same Fits)
open Layout.FieldSet

attribute [local simp] bind_eq_ok get?_cons FieldSpec.u8 FieldSpec.u16 FieldSpec.u32 FieldSpec.u64
  FieldSpec.array FieldSpec.vector FieldSpec.table FieldSpec.tables FieldSpec.tablesToEnd

variable {fields : FieldSet}

/-! ## Software versions -/

namespace SoftwareVersion

theorem mul_or_eq_add {high low width : Nat} (h : low < 2 ^ width) :
    high * 2 ^ width ||| low = high * 2 ^ width + low := by
  rw [← Nat.shiftLeft_eq, Nat.shiftLeft_add_eq_or_of_lt h]

theorem toNat_toWord (version : SoftwareVersion) : version.toWord.toNat
    = ((version.major.toNat * 2 ^ 16 + version.minor.toNat) * 2 ^ 16 + version.revision.toNat)
      * 2 ^ 16 + version.build.toNat := by
  obtain ⟨major, minor, revision, build⟩ := version
  have hmajor := major.toNat_lt
  have hminor := minor.toNat_lt
  have hrevision := revision.toNat_lt
  have hbuild := build.toNat_lt
  have h1 : major.toNat * 2 ^ 48 ||| minor.toNat * 2 ^ 32
      = (major.toNat * 2 ^ 16 + minor.toNat) * 2 ^ 32 := by
    rw [mul_or_eq_add (by omega)]
    omega
  have h2 : (major.toNat * 2 ^ 16 + minor.toNat) * 2 ^ 32 ||| revision.toNat * 2 ^ 16
      = ((major.toNat * 2 ^ 16 + minor.toNat) * 2 ^ 16 + revision.toNat) * 2 ^ 16 := by
    rw [mul_or_eq_add (by omega)]
    omega
  have hshift (word : UInt16) (width : Nat) (hwidth : width ≤ 48) :
      (word.toNat <<< width) % 2 ^ 64 = word.toNat * 2 ^ width := by
    have hword := word.toNat_lt
    rw [Nat.shiftLeft_eq, Nat.mod_eq_of_lt]
    calc word.toNat * 2 ^ width < 2 ^ 16 * 2 ^ width :=
          Nat.mul_lt_mul_of_pos_right hword (Nat.two_pow_pos width)
      _ ≤ 2 ^ 16 * 2 ^ 48 := Nat.mul_le_mul_left _ (Nat.pow_le_pow_right (by decide) hwidth)
  simp only [toWord, UInt64.toNat_or, UInt64.toNat_shiftLeft, UInt16.toNat_toUInt64]
  rw [show (48 : UInt64).toNat % 64 = 48 from rfl, show (32 : UInt64).toNat % 64 = 32 from rfl,
    show (16 : UInt64).toNat % 64 = 16 from rfl, hshift major 48 (by decide),
    hshift minor 32 (by decide), hshift revision 16 (by decide), h1, h2, mul_or_eq_add hbuild]

theorem ofWord_toWord (version : SoftwareVersion) : ofWord version.toWord = version := by
  have hword := toNat_toWord version
  obtain ⟨major, minor, revision, build⟩ := version
  have hmajor := major.toNat_lt
  have hminor := minor.toNat_lt
  have hrevision := revision.toNat_lt
  have hbuild := build.toNat_lt
  dsimp only at hword
  rw [ofWord, mk.injEq]
  refine ⟨?_, ?_, ?_, ?_⟩ <;>
    (apply UInt16.toNat_inj.mp
     simp only [UInt64.toNat_toUInt16, UInt64.toNat_shiftRight, hword]
     simp [Nat.shiftRight_eq_div_pow]
     try omega)

theorem toWord_ofWord (word : UInt64) : (ofWord word).toWord = word := by
  have hlt := word.toNat_lt
  apply UInt64.toNat_inj.mp
  rw [toNat_toWord]
  simp [ofWord, Nat.shiftRight_eq_div_pow]
  omega
end SoftwareVersion

/-! ## Bodies of fixed size -/

instance : Coded.Narrow SupplyDirection where
  code_lt a := by cases a <;> decide

instance : Coded.Narrow LinkAction where
  code_lt a := by cases a <;> decide

instance : Coded.Narrow NamespaceLevel where
  code_lt a := by cases a <;> decide

instance : Coded.Narrow Hash.Commitment where
  code_lt a := by cases a <;> decide

theorem SupplyChange.ofFields_eq_ok {change : SupplyChange} :
    ofFields fields = .ok change ↔ Same fields change.fields schema.fields := by
  obtain ⟨⟨_⟩, _, _⟩ := change
  simp [ofFields, SupplyChange.fields, schema]

theorem LevyRemoval.ofFields_eq_ok {removal : LevyRemoval} :
    ofFields fields = .ok removal ↔ Same fields removal.fields schema.fields := by
  obtain ⟨⟨_⟩⟩ := removal
  simp [ofFields, LevyRemoval.fields, schema]

theorem FundsLock.ofFields_eq_ok {lock : FundsLock} :
    ofFields fields = .ok lock ↔ Same fields lock.fields schema.fields := by
  obtain ⟨⟨⟨_⟩, _⟩, _, _⟩ := lock
  simp [ofFields, mosaicOf, FundsLock.fields, schema]

theorem AccountLink.ofFields_eq_ok {link : AccountLink} :
    ofFields fields = .ok link
      ↔ link.remote.Accepted ∧ Same fields link.fields schema.fields := by
  obtain ⟨_, _⟩ := link
  simp [ofFields, AccountLink.fields, schema, and_assoc]

theorem NameLink.ofAddressFields_eq_ok {link : NameLink} :
    ofAddressFields fields = .ok link
      ↔ link.kind = .addressAlias ∧ Same fields link.fields addressSchema.fields := by
  obtain ⟨_, ⟨_⟩, _ | _⟩ := link
  · simp [ofAddressFields, withTarget, kind, NameLink.fields, targetField, addressSchema]
    tauto
  · simp [ofAddressFields, withTarget, kind]

theorem NameLink.ofMosaicFields_eq_ok {link : NameLink} :
    ofMosaicFields fields = .ok link
      ↔ link.kind = .mosaicAlias ∧ Same fields link.fields mosaicSchema.fields := by
  obtain ⟨_, ⟨_⟩, _ | ⟨⟨_⟩⟩⟩ := link
  · simp [ofMosaicFields, withTarget, kind]
  · simp [ofMosaicFields, withTarget, kind, NameLink.fields, targetField, mosaicSchema]
    tauto

theorem DrivePreparation.ofFields_eq_ok {drive : DrivePreparation} :
    ofFields fields = .ok drive
      ↔ drive.owner.Accepted ∧ Same fields drive.fields schema.fields := by
  obtain ⟨_, _, _, _, _, _, _, _⟩ := drive
  simp [ofFields, DrivePreparation.fields, schema, and_assoc]

theorem SecretLock.ofFields_eq_ok {lock : SecretLock} :
    ofFields fields = .ok lock ↔ ∃ network, Same fields (lock.fields network) schema.fields := by
  obtain ⟨⟨⟨_⟩, _⟩, _, _, _, _⟩ := lock
  simp [ofFields, FundsLock.mosaicOf, SecretLock.fields, schema]

theorem NetworkUpgrade.ofFields_eq_ok {upgrade : NetworkUpgrade} :
    ofFields fields = .ok upgrade ↔ Same fields upgrade.fields schema.fields := by
  obtain ⟨period, version⟩ := upgrade
  have hword (word : UInt64) : SoftwareVersion.ofWord word = version ↔ word = version.toWord :=
    ⟨fun h => h ▸ (SoftwareVersion.toWord_ofWord word).symm,
      fun h => h ▸ SoftwareVersion.ofWord_toWord version⟩
  simp [ofFields, NetworkUpgrade.fields, schema, hword]

theorem LevyChange.ofFields_eq_ok {change : LevyChange} (h : Fits fields schema.fields) :
    ofFields fields = .ok change
      ↔ ∃ network, Same fields (change.fields network) schema.fields := by
  obtain ⟨levy, hlevy, hexact, -⟩ := h.table "levy" Levy.schema (by simp [schema])
  obtain ⟨⟨_⟩, _⟩ := change
  simp [ofFields, LevyChange.fields, schema, hlevy, Levy.ofFields_eq_ok hexact]

/-! ## Bodies with texts and byte strings -/

theorem SecretProof.ofFields_eq_ok {proof : SecretProof} (h : Fits fields schema.fields) :
    ofFields fields = .ok proof
      ↔ ∃ network, Same fields (proof.fields network) schema.fields := by
  obtain ⟨bytes, hbytes, hsize⟩ := h.vector "proof" "proof_size" 0 (by simp [schema])
  obtain ⟨_, _, _, content⟩ := proof
  have hlength (hcontent : bytes = content) : Value.number bytes.length = .number content.length :=
    hcontent ▸ rfl
  simp [ofFields, SecretProof.fields, schema, hbytes, hsize]
  tauto

theorem Registration.ofFields_eq_ok {registration : Registration} (h : Fits fields schema.fields) :
    ofFields fields = .ok registration ↔ Same fields registration.fields schema.fields := by
  obtain ⟨bytes, hbytes, hsize⟩ := h.vector "name" "name_size" 0 (by simp [schema])
  obtain ⟨name, ⟨_⟩, tenure⟩ := registration
  have hlength (hname : bytes = Utf8.encode name) :
      Value.number bytes.length = .number (Utf8.size name) := by
    rw [hname, Utf8.length_encode]
  have htenure (word : UInt64) (level : NamespaceLevel) : Tenure.ofWord word level = tenure
      ↔ word = tenure.word ∧ level = tenure.level := by
    obtain _ | ⟨⟨_⟩⟩ := tenure <;> cases level <;>
      simp [Tenure.ofWord, Tenure.word, Tenure.level]
  simp [ofFields, Registration.fields, schema, hbytes, hsize, Value.text, htenure]
  tauto

theorem NetworkConfig.ofFields_eq_ok {settings : NetworkConfig} (h : Fits fields schema.fields) :
    ofFields fields = .ok settings ↔ Same fields settings.fields schema.fields := by
  obtain ⟨config, hconfig, hconfigSize⟩ := h.vector "config" "config_size" 0 (by simp [schema])
  obtain ⟨versions, hversions, hversionsSize⟩ :=
    h.vector "entity_versions" "entity_versions_size" 0 (by simp [schema])
  obtain ⟨_, text, text'⟩ := settings
  have hlength (htext : config = Utf8.encode text) :
      Value.number config.length = .number (Utf8.size text) := by
    rw [htext, Utf8.length_encode]
  have hlength' (htext : versions = Utf8.encode text') :
      Value.number versions.length = .number (Utf8.size text') := by
    rw [htext, Utf8.length_encode]
  simp [ofFields, NetworkConfig.fields, schema, hconfig, hconfigSize, hversions, hversionsSize,
    Value.text]
  tauto

namespace MetadataEntry

theorem withEntity_eq_ok {entity : MetadataEntity} {entry : MetadataEntry} :
    withEntity fields entity = .ok entry ↔ entry.entity = entity ∧ entry.targetKey.Accepted
      ∧ fields.get? "target_key" = some (.block entry.targetKey.block)
      ∧ fields.get? "scoped_metadata_key" = some (.scalar entry.scopedKey)
      ∧ fields.get? "value_size_delta" = some (.number entry.sizeDelta.toUInt16.toNat)
      ∧ fields.get? "value" = some (.vector entry.value) := by
  obtain ⟨_, _, _, delta, _⟩ := entry
  have hdelta (word : UInt16) : word.toInt16 = delta ↔ word = delta.toUInt16 :=
    ⟨fun h => h ▸ (UInt16.toUInt16_toInt16 word).symm, fun h => h ▸ Int16.toInt16_toUInt16 delta⟩
  simp [withEntity, hdelta]
  tauto

theorem ofAccountFields_eq_ok {entry : MetadataEntry} (h : Fits fields accountSchema.fields) :
    ofAccountFields fields = .ok entry ↔ entry.kind = .accountMetadata
      ∧ entry.targetKey.Accepted ∧ Same fields entry.fields accountSchema.fields := by
  obtain ⟨bytes, hbytes, hsize⟩ := h.vector "value" "value_size" 0 (by simp [accountSchema])
  obtain ⟨_, _, entity, _, value⟩ := entry
  have hlength (hvalue : bytes = value) : Value.number bytes.length = .number value.length :=
    hvalue ▸ rfl
  cases entity <;>
    simp [ofAccountFields, withEntity_eq_ok, MetadataEntry.fields, entityFields, kind,
      accountSchema, hbytes, hsize]
  tauto

theorem ofEntityFields_eq_ok (entityOf : UInt64 → MetadataEntity) {wanted : TransactionKind}
    (hfields : ∀ id, entityFields (entityOf id) = [("target_id", .scalar id)])
    (hkind : ∀ entry : MetadataEntry, entry.kind = wanted ↔ ∃ id, entry.entity = entityOf id)
    {entry : MetadataEntry} (h : Fits fields entitySchema.fields) :
    (do withEntity fields (entityOf (← fields.scalar "target_id")) :
      Except PayloadError MetadataEntry) = .ok entry ↔ entry.kind = wanted
        ∧ entry.targetKey.Accepted ∧ Same fields entry.fields entitySchema.fields := by
  obtain ⟨bytes, hbytes, hsize⟩ := h.vector "value" "value_size" 0 (by simp [entitySchema])
  rw [hkind]
  obtain ⟨_, _, entity, _, value⟩ := entry
  have hlength (hvalue : bytes = value) : Value.number bytes.length = .number value.length :=
    hvalue ▸ rfl
  by_cases hentity : ∃ id, entity = entityOf id
  · obtain ⟨id, rfl⟩ := hentity
    have hinjective (id' : UInt64) : entityOf id = entityOf id' ↔ id' = id := by
      refine ⟨fun heq => ?_, fun heq => heq ▸ rfl⟩
      have hsame := congrArg entityFields heq
      rw [hfields, hfields] at hsame
      cases hsame
      rfl
    simp [withEntity_eq_ok, MetadataEntry.fields, entitySchema, hfields, hinjective, hbytes, hsize]
    tauto
  · simp [withEntity_eq_ok, not_exists.mp hentity]

theorem ofMosaicFields_eq_ok {entry : MetadataEntry} (h : Fits fields entitySchema.fields) :
    ofMosaicFields fields = .ok entry ↔ entry.kind = .mosaicMetadata
      ∧ entry.targetKey.Accepted ∧ Same fields entry.fields entitySchema.fields := by
  refine ofEntityFields_eq_ok (fun id => .mosaic ⟨id⟩) (fun _ => rfl) (fun entry => ?_) h
  obtain ⟨_, _, _ | ⟨⟨_⟩⟩ | _, _, _⟩ := entry <;> simp [kind]

theorem ofNamespacedFields_eq_ok {entry : MetadataEntry} (h : Fits fields entitySchema.fields) :
    ofNamespacedFields fields = .ok entry ↔ entry.kind = .namespaceMetadata
      ∧ entry.targetKey.Accepted ∧ Same fields entry.fields entitySchema.fields := by
  refine ofEntityFields_eq_ok (fun id => .namespaced ⟨id⟩) (fun _ => rfl) (fun entry => ?_) h
  obtain ⟨_, _, _ | _ | ⟨⟨_⟩⟩, _, _⟩ := entry <;> simp [kind]

end MetadataEntry

/-! ## Bodies with lists -/

instance : Coded.Narrow FilterType where
  code_lt a := by cases a <;> decide

theorem Transfer.messageSize_of_declared {message : Message}
    (h : Schema.Declared [fields] (messageFields message) messageSchema) :
    fields.get? "message_size" = some (.number (message.payload.length + 1)) := by
  obtain ⟨-, hpayload, -⟩ := h
  obtain ⟨n, hn, hlength⟩ := hpayload _ rfl message.payload rfl
  rw [Layout.Scope.lookup_cons_of_none rfl, Layout.lookup_singleton_eq_ok] at hn
  rw [hn, scalar_eq_number hlength]

theorem Transfer.ofFields_eq_ok {transfer : Transfer} (h : Fits fields schema.fields) :
    ofFields fields = .ok transfer
      ↔ ∃ network, Same fields (transfer.fields network) schema.fields := by
  obtain ⟨tables, htables, hcount, hexact⟩ :=
    h.tables "mosaics" "mosaics_count" mosaicSchema (by simp [schema])
  obtain ⟨message, hmessage, hexactMessage, hdeclared⟩ :=
    h.table "message" messageSchema (by simp [schema])
  obtain ⟨_, mosaics, content⟩ := transfer
  have hlist : tables.mapM mosaicOf = .ok mosaics ↔ tables = mosaics.map mosaicFields :=
    mapM_eq_ok_map_iff fun table htable _ => mosaicOf_eq_ok (hexact table htable)
  have hlength := @number_length _ mosaicFields tables mosaics
  have hsize (heq : message = messageFields content) := messageSize_of_declared (heq ▸ hdeclared)
  simp [ofFields, Transfer.fields, schema, htables, hcount, hmessage, hlist,
    messageOf_eq_ok hexactMessage]
  tauto

theorem Multisig.ofFields_eq_ok {multisig : Multisig} (h : Fits fields schema.fields) :
    ofFields fields = .ok multisig ↔ (∀ m ∈ multisig.changes, m.value.Accepted)
      ∧ Same fields multisig.fields schema.fields := by
  obtain ⟨tables, htables, hcount, hexact⟩ :=
    h.tables "modifications" "modifications_count" cosignatorySchema (by simp [schema])
  obtain ⟨approval, removal, changes⟩ := multisig
  have hlist : tables.mapM cosignatoryOf = .ok changes
      ↔ (∀ m ∈ changes, m.value.Accepted) ∧ tables = cosignatoryFields changes :=
    mapM_eq_ok_map fun table htable _ => cosignatoryOf_eq_ok (hexact table htable)
  have hlength : tables = cosignatoryFields changes → _ := number_length
  have hdelta (byte : UInt8) (delta : Int8) : byte.toInt8 = delta ↔ byte = delta.toUInt8 :=
    ⟨fun h => h ▸ (UInt8.toUInt8_toInt8 byte).symm, fun h => h ▸ Int8.toInt8_toUInt8 delta⟩
  simp [ofFields, Multisig.fields, schema, htables, hcount, hlist, hdelta]
  constructor
  · rintro ⟨happroval, hremoval, haccepted, rfl⟩
    exact ⟨haccepted, hremoval, happroval, hlength rfl, rfl⟩
  · rintro ⟨haccepted, hremoval, happroval, -, rfl⟩
    exact ⟨happroval, hremoval, haccepted, rfl⟩

theorem ContractChange.ofFields_eq_ok {contract : ContractChange} (h : Fits fields schema.fields) :
    ofFields fields = .ok contract
      ↔ (∀ m ∈ contract.customers ++ contract.executors ++ contract.verifiers, m.value.Accepted)
      ∧ Same fields contract.fields schema.fields := by
  obtain ⟨customers, hcustomers, hcustomersCount, hexact⟩ :=
    h.tables "customers" "customers_count" cosignatorySchema (by simp [schema])
  obtain ⟨executors, hexecutors, hexecutorsCount, hexact'⟩ :=
    h.tables "executors" "executors_count" cosignatorySchema (by simp [schema])
  obtain ⟨verifiers, hverifiers, hverifiersCount, hexact''⟩ :=
    h.tables "verifiers" "verifiers_count" cosignatorySchema (by simp [schema])
  have hlist {tables : List FieldSet} (hexact : ∀ table ∈ tables, Schema.Exact table cosignatorySchema)
      (list : List (Modification PublicKey)) : tables.mapM cosignatoryOf = .ok list
        ↔ (∀ m ∈ list, m.value.Accepted) ∧ tables = cosignatoryFields list :=
    mapM_eq_ok_map fun table htable _ => cosignatoryOf_eq_ok (hexact table htable)
  have hlength (tables : List FieldSet) (list : List (Modification PublicKey)) :
      tables = cosignatoryFields list → _ := number_length
  obtain ⟨delta, _, list, list', list''⟩ := contract
  have hdelta (word : UInt64) : word.toInt64 = delta ↔ word = delta.toUInt64 :=
    ⟨fun h => h ▸ (UInt64.toUInt64_toInt64 word).symm, fun h => h ▸ Int64.toInt64_toUInt64 delta⟩
  have hcustomersLength := hlength customers list
  have hexecutorsLength := hlength executors list'
  have hverifiersLength := hlength verifiers list''
  simp [ofFields, ContractChange.fields, schema, hcustomers, hcustomersCount, hexecutors,
    hexecutorsCount, hverifiers, hverifiersCount, hlist hexact, hlist hexact', hlist hexact'',
    hdelta, or_imp, forall_and]
  tauto

namespace AccountFilter

theorem ofFieldsWith_eq_ok {α : Type} {read : FieldSet → Except PayloadError α}
    {write : α → Value} {wrap : List (Modification α) → FilterChanges} {name entry : String}
    {kind : Kind} (h : Fits fields (listSchema name ⟨entry, [.u8 "type", ⟨"value", kind⟩]⟩).fields)
    (hread : ∀ table a, read table = .ok a ↔ table.get? "value" = some (write a))
    (hfields : ∀ list, changesFields (wrap list) = list.map (changeFields write))
    (hlength : ∀ list, (wrap list).length = list.length) {filter : AccountFilter} :
    ofFieldsWith read wrap fields = .ok filter ↔ (∃ list, filter.changes = wrap list)
      ∧ Same fields filter.fields
        (listSchema name ⟨entry, [.u8 "type", ⟨"value", kind⟩]⟩).fields := by
  obtain ⟨tables, htables, hcount, hexact⟩ :=
    h.tables "modifications" "modifications_count" _ (by simp [listSchema]; rfl)
  have hlist (list : List (Modification α)) : tables.mapM (changeOf read) = .ok list
      ↔ tables = list.map (changeFields write) :=
    mapM_eq_ok_map_iff fun table htable _ => changeOf_eq_ok (hexact table htable) (hread table)
  obtain ⟨type, changes⟩ := filter
  simp [ofFieldsWith, AccountFilter.fields, listSchema, htables, hcount, hlist]
  constructor
  · rintro ⟨list, rfl, htype, rfl⟩
    exact ⟨⟨list, rfl⟩, htype, by rw [hlength, List.length_map], (hfields list).symm⟩
  · rintro ⟨⟨list, rfl⟩, htype, -, rfl⟩
    exact ⟨list, hfields list, htype, rfl⟩

theorem ofAddressFields_eq_ok {filter : AccountFilter} (h : Fits fields addressSchema.fields) :
    ofAddressFields fields = .ok filter ↔ filter.kind = .accountPropertiesAddress
      ∧ Same fields filter.fields addressSchema.fields := by
  have hread : ofAddressFields fields = .ok filter ↔ (∃ list, filter.changes = .address list)
      ∧ Same fields filter.fields addressSchema.fields :=
    ofFieldsWith_eq_ok h (fun _ _ => Content.address_eq_ok) (fun _ => rfl) (fun _ => rfl)
  rw [hread]
  obtain ⟨_, _ | _ | _⟩ := filter <;> simp [kind]

theorem ofMosaicFields_eq_ok {filter : AccountFilter} (h : Fits fields mosaicSchema.fields) :
    ofMosaicFields fields = .ok filter ↔ filter.kind = .accountPropertiesMosaic
      ∧ Same fields filter.fields mosaicSchema.fields := by
  have hread : ofMosaicFields fields = .ok filter ↔ (∃ list, filter.changes = .mosaic list)
      ∧ Same fields filter.fields mosaicSchema.fields :=
    ofFieldsWith_eq_ok h (fun _ ⟨_⟩ => by simp) (fun _ => rfl) (fun _ => rfl)
  rw [hread]
  obtain ⟨_, _ | _ | _⟩ := filter <;> simp [kind]

theorem ofKindFields_eq_ok {filter : AccountFilter} (h : Fits fields kindSchema.fields) :
    ofKindFields fields = .ok filter ↔ filter.kind = .accountPropertiesEntityType
      ∧ Same fields filter.fields kindSchema.fields := by
  have hread : ofKindFields fields = .ok filter ↔ (∃ list, filter.changes = .kind list)
      ∧ Same fields filter.fields kindSchema.fields :=
    ofFieldsWith_eq_ok h (fun _ _ => Content.coded_eq_ok) (fun _ => rfl) (fun _ => rfl)
  rw [hread]
  obtain ⟨_, _ | _ | _⟩ := filter <;> simp [kind]

end AccountFilter

namespace Offer

theorem listOf_eq_ok {α : Type} {read : FieldSet → Except PayloadError α} {write : α → FieldSet}
    {good : α → Prop} {name : String} {offer : Schema}
    (h : Fits fields (listSchema name offer).fields)
    (hread : ∀ table a, Schema.Exact table offer →
      (read table = .ok a ↔ good a ∧ table = write a)) {offers : List α} :
    listOf read fields = .ok offers ↔ (∀ a ∈ offers, good a)
      ∧ Same fields (listFields write offers) (listSchema name offer).fields := by
  obtain ⟨tables, htables, hcount, hexact⟩ :=
    h.tables "offers" "offers_count" offer (by simp [listSchema])
  have hlist : tables.mapM read = .ok offers ↔ (∀ a ∈ offers, good a) ∧ tables = offers.map write :=
    mapM_eq_ok_map fun table htable a => hread table a (hexact table htable)
  have hlength := @number_length _ write tables offers
  simp [listOf, listFields, listSchema, htables, hcount, hlist]
  tauto

end Offer

theorem NewOffer.listOf_eq_ok {offers : List NewOffer} (h : Fits fields schema.fields) :
    Offer.listOf ofFields fields = .ok offers
      ↔ Same fields (Offer.listFields NewOffer.fields offers) schema.fields := by
  have hread (table : FieldSet) (offer : NewOffer)
      (hexact : Schema.Exact table (Offer.schemaWith "add_exchange_offer" (.u64 "duration"))) :
      ofFields table = .ok offer ↔ True ∧ table = offer.fields := by
    rw [ofFields_eq_ok hexact, true_and]
  rw [schema, Offer.listOf_eq_ok h hread]
  exact and_iff_right fun _ _ => trivial

theorem TakenOffer.listOf_eq_ok {offers : List TakenOffer} (h : Fits fields schema.fields) :
    Offer.listOf ofFields fields = .ok offers ↔ (∀ offer ∈ offers, offer.owner.Accepted)
      ∧ Same fields (Offer.listFields TakenOffer.fields offers) schema.fields :=
  Offer.listOf_eq_ok h fun _ _ => ofFields_eq_ok

theorem WithdrawnOffer.listOf_eq_ok {offers : List WithdrawnOffer} (h : Fits fields schema.fields) :
    Offer.listOf ofFields fields = .ok offers
      ↔ Same fields (Offer.listFields WithdrawnOffer.fields offers) schema.fields := by
  have hread (table : FieldSet) (offer : WithdrawnOffer)
      (hexact : Schema.Exact table ⟨"remove_exchange_offer", [.u64 "mosaic_id", .u8 "type"]⟩) :
      ofFields table = .ok offer ↔ True ∧ table = offer.fields := by
    rw [ofFields_eq_ok hexact, true_and]
  rw [schema, Offer.listOf_eq_ok h hread]
  exact and_iff_right fun _ _ => trivial

namespace MetadataChanges

theorem withTarget_eq_ok {name : String} {field : FieldSpec} {target : MetadataTarget}
    {metadata : MetadataChanges} (h : Fits fields (schemaWith name field).fields) :
    withTarget fields target = .ok metadata ↔ metadata.target = target
      ∧ fields.get? "metadata_type" = some (.coded target.type)
      ∧ fields.get? "modifications" = some (.tableArray (metadata.changes.map changeFields)) := by
  obtain ⟨tables, htables, hentries⟩ :=
    h.tablesToEnd "modifications" changeSchema (by simp [schemaWith])
  have hfits (table : FieldSet) (htable : table ∈ tables) : Fits table changeSchema.fields := by
    obtain ⟨hexact, hshaped, hdeclared⟩ := hentries table htable
    have hclosed : changeSchema.free = [] := by decide
    have hagree : Layout.Scope.Agree changeSchema.free [fields] [] := by
      rw [hclosed]
      exact fun name hname => nomatch hname
    exact Fits.of_parts (Layout.ExactFields.nested (by decide) hexact) hshaped
      (Schema.Declared.agree changeSchema hshaped hagree hdeclared)
  obtain ⟨found, changes⟩ := metadata
  have hlist (list : List MetadataChange) : tables.mapM changeOf = .ok list
      ↔ tables = list.map changeFields :=
    mapM_eq_ok_map_iff fun table htable _ =>
      changeOf_eq_ok (hentries table htable).1 (hfits table htable)
  simp only [withTarget, bind_eq_ok, lift_eq_ok, scalar8_eq_ok, htables, Option.some.injEq,
    Value.tableArray.injEq]
  constructor
  · rintro ⟨type, htype, h⟩
    by_cases hcode : type.toNat = Coded.code target.type
    · rw [if_neg (not_not.mpr hcode)] at h
      simp [htables, hlist] at h
      obtain ⟨hchanges, htarget⟩ := h
      rw [htype, hcode]
      exact ⟨htarget.symm, rfl, hchanges⟩
    · rw [if_pos hcode] at h
      cases h
  · rintro ⟨rfl, htype, hchanges⟩
    have hcode : (Coded.code found.type).toUInt8.toNat = Coded.code found.type := by
      cases found <;> rfl
    refine ⟨(Coded.code found.type).toUInt8, by rw [htype, hcode]; rfl, ?_⟩
    rw [if_neg (not_not.mpr hcode)]
    simp [htables, (hlist changes).mpr hchanges]

theorem ofAddressFields_eq_ok {metadata : MetadataChanges} (h : Fits fields addressSchema.fields) :
    ofAddressFields fields = .ok metadata ↔ metadata.kind = .modifyAddressMetadata
      ∧ Same fields metadata.fields addressSchema.fields := by
  obtain ⟨target, _⟩ := metadata
  cases target <;>
    simp [ofAddressFields, withTarget_eq_ok h, kind, targetKind, MetadataChanges.fields,
      targetValue, addressSchema, schemaWith, MetadataTarget.type]
  tauto

theorem ofMosaicFields_eq_ok {metadata : MetadataChanges} (h : Fits fields mosaicSchema.fields) :
    ofMosaicFields fields = .ok metadata ↔ metadata.kind = .modifyMosaicMetadata
      ∧ Same fields metadata.fields mosaicSchema.fields := by
  obtain ⟨_ | ⟨⟨_⟩⟩ | _, _⟩ := metadata <;>
    simp [ofMosaicFields, withTarget_eq_ok h, kind, targetKind, MetadataChanges.fields,
      targetValue, mosaicSchema, schemaWith, MetadataTarget.type]
  tauto

theorem ofNamespacedFields_eq_ok {metadata : MetadataChanges}
    (h : Fits fields namespacedSchema.fields) :
    ofNamespacedFields fields = .ok metadata ↔ metadata.kind = .modifyNamespaceMetadata
      ∧ Same fields metadata.fields namespacedSchema.fields := by
  obtain ⟨_ | _ | ⟨⟨_⟩⟩, _⟩ := metadata <;>
    simp [ofNamespacedFields, withTarget_eq_ok h, kind, targetKind, MetadataChanges.fields,
      targetValue, namespacedSchema, schemaWith, MetadataTarget.type]
  tauto

end MetadataChanges

namespace MosaicDefinition

theorem durationOf_listed (properties : MosaicProperties) :
    durationOf none (listed properties) = .ok properties.duration := by
  unfold listed
  cases properties.duration with
  | none => rfl
  | some duration =>
      simp only [durationOf, bind_eq_ok, lift_eq_ok, scalar8_eq_ok]
      refine ⟨durationId, by simp, ?_⟩
      rw [if_neg (not_not.mpr rfl)]
      simp

theorem listed_of_durationOf {tables : List FieldSet} {properties : MosaicProperties}
    (hexact : ∀ table ∈ tables, Schema.Exact table propertySchema) (hlength : tables.length ≤ 1)
    (h : durationOf none tables = .ok properties.duration) : tables = listed properties := by
  match tables, hlength with
  | [], _ =>
      cases h' : properties.duration with
      | none => simp [listed, h']
      | some duration =>
          rw [h'] at h
          cases h
  | [table], _ =>
      obtain ⟨_, _, rfl, -, _, _, rfl, -, rfl⟩ := hexact table List.mem_cons_self
      simp only [durationOf, bind_eq_ok, lift_eq_ok, scalar8_eq_ok] at h
      obtain ⟨id, hid, h⟩ := h
      by_cases hduration : id = durationId
      · rw [if_neg (not_not.mpr hduration)] at h
        simp at hid h
        obtain ⟨duration, rfl, hproperties⟩ := h
        rw [hid, hduration]
        simp [listed, ← hproperties]
      · rw [if_pos hduration] at h
        cases h

theorem length_listed_le {tables : List FieldSet} {properties : MosaicProperties}
    (h : durationOf none tables = .ok properties.duration) :
    (listed properties).length ≤ tables.length := by
  cases tables with
  | nil =>
      have hnone : none = properties.duration := Except.ok.inj h
      simp [listed, ← hnone]
  | cons table rest =>
      unfold listed
      cases properties.duration <;> simp

theorem ofFlags_flags (properties : MosaicProperties) :
    .ofFlags properties.flags properties.divisibility properties.duration = properties := by
  have hall : ∀ supply transfer levy : Bool,
      MosaicProperties.ofFlags (MosaicProperties.flags ⟨supply, transfer, levy, 0, none⟩) 0 none
        = ⟨supply, transfer, levy, 0, none⟩ := by decide
  obtain ⟨supply, transfer, levy, _, _⟩ := properties
  have hflags := hall supply transfer levy
  rw [MosaicProperties.ofFlags, MosaicProperties.mk.injEq] at hflags ⊢
  exact ⟨hflags.1, hflags.2.1, hflags.2.2.1, rfl, rfl⟩

theorem flags_ofFlags {flags : UInt8} (h : flags.toNat < 8) (divisibility : UInt8)
    (duration : Option UInt64) :
    (MosaicProperties.ofFlags flags divisibility duration).flags = flags := by
  have hall : ∀ n : Fin 8, (MosaicProperties.ofFlags (.ofNat n) 0 none).flags = .ofNat n := by
    decide
  have hflags := hall ⟨flags.toNat, h⟩
  rw [UInt8.ofNat_toNat] at hflags
  exact hflags

/-- A definition is read with its flags cut down, and with the last duration of several. -/
theorem ofFields_eq_ok {definition : MosaicDefinition} :
    ofFields fields = .ok definition
      ↔ fields.get? "nonce" = some (.number definition.nonce.value.toNat)
      ∧ fields.get? "mosaic_id" = some (.scalar definition.id.value)
      ∧ fields.get? "divisibility" = some (.number definition.properties.divisibility.toNat)
      ∧ (∃ flags, fields.get? "flags" = some (.number flags.toNat)
        ∧ definition.properties = .ofFlags flags definition.properties.divisibility
          definition.properties.duration)
      ∧ ∃ tables, fields.get? "properties" = some (.tableArray tables)
        ∧ durationOf none tables = .ok definition.properties.duration := by
  obtain ⟨⟨_⟩, ⟨_⟩, properties⟩ := definition
  simp only [ofFields, bind_eq_ok, lift_eq_ok, tableArray_eq_ok, scalar_eq_ok, scalar8_eq_ok,
    scalar32_eq_ok, Except.ok.injEq, mk.injEq, MosaicNonce.mk.injEq, MosaicId.mk.injEq]
  constructor
  · rintro ⟨tables, htables, duration, hduration, _, hnonce, _, hid, flags, hflags, divisibility,
      hdivisibility, rfl, rfl, rfl⟩
    exact ⟨hnonce, hid, hdivisibility, ⟨flags, hflags, rfl⟩, tables, htables, hduration⟩
  · rintro ⟨hnonce, hid, hdivisibility, ⟨flags, hflags, hproperties⟩, tables, htables, hduration⟩
    exact ⟨tables, htables, _, hduration, _, hnonce, _, hid, flags, hflags, _, hdivisibility, rfl,
      rfl, hproperties.symm⟩

theorem ofFields_of_same {definition : MosaicDefinition}
    (h : Same fields definition.fields schema.fields) : ofFields fields = .ok definition := by
  simp [schema, MosaicDefinition.fields] at h
  obtain ⟨hnonce, hid, -, hflags, hdivisibility, hproperties⟩ := h
  exact ofFields_eq_ok.mpr ⟨hnonce, hid, hdivisibility,
    ⟨_, hflags, (ofFlags_flags definition.properties).symm⟩,
    _, hproperties, durationOf_listed definition.properties⟩

/-- A definition is written with the values it was read from, unless these have
several properties or higher flag bits. -/
theorem same_of_ofFields {definition : MosaicDefinition} (hfits : Fits fields schema.fields)
    (h : ofFields fields = .ok definition)
    (hproperties : ∀ tables, fields.get? "properties" = some (.tableArray tables) →
      tables.length ≤ 1)
    (hflags : ∀ flags, fields.get? "flags" = some (.scalar flags) → flags.toNat < 8) :
    Same fields definition.fields schema.fields := by
  obtain ⟨tables, htables, hcount, hexact⟩ :=
    hfits.tables "properties" "properties_count" propertySchema (by simp [schema])
  obtain ⟨hnonce, hid, hdivisibility, ⟨flags, hword, heq⟩, found, hfound, hduration⟩ :=
    ofFields_eq_ok.mp h
  rw [htables] at hfound
  cases hfound
  have hlisted := listed_of_durationOf hexact (hproperties tables htables) hduration
  have hsmall := hflags _ hword
  have hkept : definition.properties.flags = flags := by
    rw [heq, flags_ofFlags]
    rwa [toNat_of_scalar_eq_number rfl (by have := flags.toNat_lt; omega)] at hsmall
  simp [schema, MosaicDefinition.fields, hnonce, hid, hcount, hkept, hword, hdivisibility, htables,
    ← hlisted]

end MosaicDefinition

end LedgerTx
