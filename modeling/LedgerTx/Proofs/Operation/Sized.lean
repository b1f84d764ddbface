import LedgerTx.Proofs.Operation.Kind

/-!
# Operations of a size that can be written

The fields that count lists, texts and byte strings are one or two bytes
wide.  The fields of an operation hold its values when nothing in it is too
long for its count, and these take all the bytes that the operation is long.
Such an operation takes less than 2 ^ 18 bytes, but for the changes of
metadata, which run to the end and are not counted.  Whether or not anything
is too long, the size is bounded by the number of entries and bytes.
-/

namespace LedgerTx

open Layout (FieldSet FieldSpec Value Schema Kind Scope Width Fits FieldsHold rawFields)
open Layout.FieldSet

/-! ## Sizes -/

/-- Whether the lists, texts and byte strings of an operation fit the fields that count them. -/
def Operation.Sized : Operation → Prop
  | transfer operation =>
      operation.mosaics.length < 2 ^ 8 ∧ operation.message.payload.length + 1 < 2 ^ 16
  | registration operation => Utf8.size operation.name < 2 ^ 8
  | accountFilter operation => operation.changes.length < 2 ^ 8
  | multisig operation => operation.changes.length < 2 ^ 8
  | secretProof operation => operation.proof.length < 2 ^ 16
  | metadataChanges operation => ∀ change ∈ operation.changes,
      Utf8.size change.key < 2 ^ 8 ∧ Utf8.size change.value < 2 ^ 16
  | metadataEntry operation => operation.value.length < 2 ^ 16
  | newOffers offers => offers.length < 2 ^ 8
  | takenOffers offers => offers.length < 2 ^ 8
  | withdrawnOffers offers => offers.length < 2 ^ 8
  | contractChange operation => operation.customers.length < 2 ^ 8
      ∧ operation.executors.length < 2 ^ 8 ∧ operation.verifiers.length < 2 ^ 8
  | networkConfig operation =>
      Utf8.size operation.config < 2 ^ 16 ∧ Utf8.size operation.entityVersions < 2 ^ 16
  | _ => True

def MetadataChange.size (change : MetadataChange) : Nat :=
  MetadataChanges.headerSize + Utf8.size change.key + Utf8.size change.value

/-- The bytes of an operation that no field counts: the changes of metadata. -/
def Operation.uncounted : Operation → Nat
  | metadataChanges operation => (operation.changes.map MetadataChange.size).sum
  | _ => 0

def LinkTarget.size : LinkTarget → Nat
  | address _ => 25
  | mosaic _ => 8

def FilterChanges.entrySize : FilterChanges → Nat
  | address _ => 26
  | mosaic _ => 9
  | kind _ => 3

def MetadataTarget.size : MetadataTarget → Nat
  | address _ => 25
  | mosaic _ | namespaced _ => 8

def MetadataEntity.size : MetadataEntity → Nat
  | account => 0
  | mosaic _ | namespaced _ => 8

/-- The bytes of the body of an operation: those of fixed size, and those of all its parts. -/
def Operation.size : Operation → Nat
  | transfer operation => 29 + operation.message.payload.length + 16 * operation.mosaics.length
  | mosaicDefinition operation => 15 + 9 * (MosaicDefinition.listed operation.properties).length
  | supplyChange _ => 17
  | registration operation => 18 + Utf8.size operation.name
  | nameLink operation => 9 + operation.target.size
  | accountFilter operation => 2 + operation.changes.entrySize * operation.changes.length
  | multisig operation => 3 + 33 * operation.changes.length
  | fundsLock _ => 56
  | secretLock _ => 82
  | secretProof operation => 60 + operation.proof.length
  | metadataChanges operation =>
      1 + operation.target.size + (operation.changes.map MetadataChange.size).sum
  | accountLink _ => 33
  | metadataEntry operation => 44 + operation.entity.size + operation.value.length
  | levyChange _ => 50
  | levyRemoval _ => 8
  | newOffers offers => 1 + 33 * offers.length
  | takenOffers offers => 1 + 57 * offers.length
  | withdrawnOffers offers => 1 + 9 * offers.length
  | contractChange operation => 43 + 33 * operation.customers.length
      + 33 * operation.executors.length + 33 * operation.verifiers.length
  | networkConfig operation =>
      12 + Utf8.size operation.config + Utf8.size operation.entityVersions
  | networkUpgrade _ => 16
  | drivePreparation _ => 69

/-- A change of metadata as one entry with the bytes of its texts. -/
def MetadataChange.volume (change : MetadataChange) : Nat :=
  1 + Utf8.size change.key + Utf8.size change.value

/-- The entries and bytes in the lists, texts and byte strings of an operation. -/
def Operation.volume : Operation → Nat
  | transfer operation => operation.mosaics.length + operation.message.payload.length
  | registration operation => Utf8.size operation.name
  | accountFilter operation => operation.changes.length
  | multisig operation => operation.changes.length
  | secretProof operation => operation.proof.length
  | metadataChanges operation => (operation.changes.map MetadataChange.volume).sum
  | metadataEntry operation => operation.value.length
  | newOffers offers => offers.length
  | takenOffers offers => offers.length
  | withdrawnOffers offers => offers.length
  | contractChange operation =>
      operation.customers.length + operation.executors.length + operation.verifiers.length
  | networkConfig operation => Utf8.size operation.config + Utf8.size operation.entityVersions
  | _ => 0

theorem LinkTarget.size_le (target : LinkTarget) : target.size ≤ 25 := by
  cases target <;> simp [size]

theorem FilterChanges.entrySize_le (changes : FilterChanges) : changes.entrySize ≤ 26 := by
  cases changes <;> simp [entrySize]

theorem MetadataTarget.size_le (target : MetadataTarget) : target.size ≤ 25 := by
  cases target <;> simp [size]

theorem MetadataEntity.size_le (entity : MetadataEntity) : entity.size ≤ 8 := by
  cases entity <;> simp [size]

theorem MetadataChange.sum_size_le (changes : List MetadataChange) :
    (changes.map size).sum ≤ 8 * (changes.map volume).sum := by
  induction changes with
  | nil => exact Nat.zero_le _
  | cons change rest ih =>
      simp only [List.map_cons, List.sum_cons, size, volume, MetadataChanges.headerSize]
      omega

namespace Operation

/-- The size is bounded by what is not counted when nothing is too long for its count. -/
theorem size_le {operation : Operation} (h : operation.Sized) :
    operation.size ≤ 2 ^ 18 + operation.uncounted := by
  cases operation with
  | mosaicDefinition operation =>
      have hlisted := MosaicDefinition.length_listed_le_one operation.properties
      simp only [size, uncounted]
      omega
  | nameLink operation =>
      have htarget := operation.target.size_le
      simp only [size, uncounted]
      omega
  | accountFilter operation =>
      have hentries := Nat.mul_le_mul operation.changes.entrySize_le (Nat.le_of_lt h)
      simp only [size, uncounted]
      omega
  | metadataChanges operation =>
      have htarget := operation.target.size_le
      simp only [size, uncounted]
      omega
  | metadataEntry operation =>
      have hentity := operation.entity.size_le
      simp only [Sized] at h
      simp only [size, uncounted]
      omega
  | _ =>
      simp only [Sized] at h
      simp only [size, uncounted]
      omega

theorem size_le_volume (operation : Operation) : operation.size ≤ 84 + 57 * operation.volume := by
  cases operation with
  | mosaicDefinition operation =>
      have hlisted := MosaicDefinition.length_listed_le_one operation.properties
      simp only [size, volume]
      omega
  | nameLink operation =>
      have htarget := operation.target.size_le
      simp only [size, volume]
      omega
  | accountFilter operation =>
      have hentries := Nat.mul_le_mul_right operation.changes.length operation.changes.entrySize_le
      simp only [size, volume]
      omega
  | metadataChanges operation =>
      have htarget := operation.target.size_le
      have hchanges := MetadataChange.sum_size_le operation.changes
      simp only [size, volume]
      omega
  | metadataEntry operation =>
      have hentity := operation.entity.size_le
      simp only [size, volume]
      omega
  | _ =>
      simp only [size, volume]
      omega

theorem uncounted_le_volume (operation : Operation) :
    operation.uncounted ≤ 8 * operation.volume := by
  cases operation with
  | metadataChanges operation => exact MetadataChange.sum_size_le operation.changes
  | _ => exact Nat.zero_le _

end Operation

/-! ## Values of each operation -/

theorem Transfer.holds {transfer : Transfer} (hmosaics : transfer.mosaics.length < 2 ^ 8)
    (hmessage : transfer.message.payload.length + 1 < 2 ^ 16) (network : Network) :
    FieldsHold [transfer.fields network] (transfer.fields network) schema.fields
      (29 + transfer.message.payload.length + 16 * transfer.mosaics.length) := by
  refine .of_eq (.cons rfl (.block _) <| .cons rfl (.number hmessage) <|
    .cons rfl (.number hmosaics) <|
    .cons rfl (.table <| .cons rfl (.byte _) <| .cons rfl (.vector rfl (by omega) rfl) .nil) <|
    .cons rfl (.tables rfl (by omega) fun mosaic _ =>
      .cons rfl (.word _) <| .cons rfl (.word _) .nil) .nil) ?_
  rw [Layout.sum_map_const]
  simp only [Width.bytes]
  omega

theorem MosaicDefinition.holds (definition : MosaicDefinition) :
    FieldsHold [definition.fields] definition.fields schema.fields
      (15 + 9 * (listed definition.properties).length) := by
  have hfits := definition.fits_fields
  obtain ⟨_, htables, hlength⟩ := length_rawFields hfits
  cases htables
  exact ⟨hfits.shaped, hfits.declared, hlength⟩

theorem SupplyChange.holds (change : SupplyChange) :
    FieldsHold [change.fields] change.fields schema.fields 17 :=
  .cons rfl (.word _) <| .cons rfl (.coded (by decide) _) <| .cons rfl (.word _) .nil

theorem Registration.holds {registration : Registration}
    (hname : Utf8.size registration.name < 2 ^ 8) :
    FieldsHold [registration.fields] registration.fields schema.fields
      (18 + Utf8.size registration.name) := by
  refine .of_eq (.cons rfl (.coded (by decide) _) <| .cons rfl (.word _) <|
    .cons rfl (.word _) <| .cons rfl (.number hname) <| .cons rfl (.text rfl (by omega)) .nil) ?_
  simp only [Width.bytes]
  omega

theorem NameLink.holds (link : NameLink) :
    FieldsHold [link.fields] link.fields link.kind.schema.fields (9 + link.target.size) := by
  obtain ⟨action, id, address | mosaic⟩ := link
  · exact .of_eq (.cons rfl (.coded (by decide) _) <| .cons rfl (.word _) <|
      .cons rfl (.block _) .nil) rfl
  · exact .of_eq (.cons rfl (.coded (by decide) _) <| .cons rfl (.word _) <|
      .cons rfl (.word _) .nil) rfl

theorem AccountFilter.holds_changes {α : Type} {write : α → Value} {kind : Kind} {size : Nat}
    (type : FilterType) {list : List (Modification α)} {name entry : String}
    (hlist : list.length < 2 ^ 8) (hvalue : ∀ scope a, Kind.Holds scope (write a) kind size)
    {values : FieldSet} (hvalues : values
      = [("property_type", .coded type), ("modifications_count", .number list.length),
        ("modifications", .tableArray (list.map (changeFields write)))]) :
    FieldsHold [values] values
      (listSchema name ⟨entry, [.u8 "type", ⟨"value", kind⟩]⟩).fields
      (2 + (1 + size) * list.length) := by
  subst hvalues
  refine .of_eq (.cons rfl (.coded (by decide) _) <| .cons rfl (.number hlist) <|
    .cons rfl (.tables rfl (by omega) fun m _ =>
      .cons rfl (.coded (by decide) _) <| .cons rfl (hvalue _ m.value) .nil) .nil) ?_
  rw [Layout.sum_map_const]
  simp only [Width.bytes, Nat.add_zero]
  omega

theorem AccountFilter.holds {filter : AccountFilter} (hchanges : filter.changes.length < 2 ^ 8) :
    FieldsHold [filter.fields] filter.fields filter.kind.schema.fields
      (2 + filter.changes.entrySize * filter.changes.length) := by
  obtain ⟨type, list | list | list⟩ := filter
  · exact holds_changes type hchanges (fun _ address => .block address.toBlock) rfl
  · exact holds_changes type hchanges (fun _ id => .word id.value) rfl
  · exact holds_changes type hchanges (fun _ => .coded (by decide)) rfl

theorem cosignatory_holds {scope : Scope} (m : Modification PublicKey) :
    FieldsHold scope [("type", .coded m.change), ("cosignatory", .block m.value.block)]
      cosignatorySchema.fields 33 :=
  .cons rfl (.coded (by decide) _) <| .cons rfl (.block _) .nil

theorem Multisig.holds {multisig : Multisig} (hchanges : multisig.changes.length < 2 ^ 8) :
    FieldsHold [multisig.fields] multisig.fields schema.fields
      (3 + 33 * multisig.changes.length) := by
  refine .of_eq (.cons rfl (.byte _) <| .cons rfl (.byte _) <| .cons rfl (.number hchanges) <|
    .cons rfl (.tables rfl (by omega) fun m _ => cosignatory_holds m) .nil) ?_
  rw [Layout.sum_map_const]
  simp only [Width.bytes]
  omega

theorem AccountLink.holds (link : AccountLink) :
    FieldsHold [link.fields] link.fields schema.fields 33 :=
  .cons rfl (.block _) <| .cons rfl (.coded (by decide) _) .nil

theorem FundsLock.holds (lock : FundsLock) : FieldsHold [lock.fields] lock.fields schema.fields 56 :=
  .cons rfl (.word _) <| .cons rfl (.word _) <| .cons rfl (.word _) <| .cons rfl (.block _) .nil

theorem SecretLock.holds (lock : SecretLock) (network : Network) :
    FieldsHold [lock.fields network] (lock.fields network) schema.fields 82 :=
  .cons rfl (.word _) <| .cons rfl (.word _) <| .cons rfl (.word _) <|
    .cons rfl (.coded (by decide) _) <| .cons rfl (.block _) <| .cons rfl (.block _) .nil

theorem SecretProof.holds {proof : SecretProof} (hproof : proof.proof.length < 2 ^ 16)
    (network : Network) : FieldsHold [proof.fields network] (proof.fields network) schema.fields
      (60 + proof.proof.length) := by
  refine .of_eq (.cons rfl (.coded (by decide) _) <| .cons rfl (.block _) <|
    .cons rfl (.block _) <| .cons rfl (.number hproof) <|
    .cons rfl (.vector rfl (by omega) rfl) .nil) ?_
  simp only [Width.bytes]
  omega

theorem MetadataChange.holds {outer : Scope} {change : MetadataChange}
    (hkey : Utf8.size change.key < 2 ^ 8) (hvalue : Utf8.size change.value < 2 ^ 16) :
    FieldsHold (MetadataChanges.changeFields change :: outer) (MetadataChanges.changeFields change)
      MetadataChanges.changeSchema.fields change.size := by
  have hsize : MetadataChanges.headerSize + Utf8.size change.key + Utf8.size change.value
      < 256 ^ Width.u32.bytes := by
    simp only [MetadataChanges.headerSize, Width.bytes]
    omega
  refine .of_eq (.cons rfl (.number hsize) <| .cons rfl (.coded (by decide) _) <|
    .cons rfl (.number hkey) <| .cons rfl (.number hvalue) <|
    .cons rfl (.text rfl (by omega)) <| .cons rfl (.text rfl (by omega)) .nil) ?_
  simp only [size, MetadataChanges.headerSize, Width.bytes]
  omega

theorem MetadataChanges.holds_target {metadata : MetadataChanges} {name : String} {kind : Kind}
    {size : Nat}
    (hchanges : ∀ change ∈ metadata.changes,
      Utf8.size change.key < 2 ^ 8 ∧ Utf8.size change.value < 2 ^ 16)
    (htarget : ∀ scope, Kind.Holds scope (targetValue metadata.target) kind size) :
    FieldsHold [metadata.fields] metadata.fields (schemaWith name ⟨"target", kind⟩).fields
      (1 + size + (metadata.changes.map MetadataChange.size).sum) := by
  refine .of_eq (.cons rfl (.coded (by decide) _) <| .cons rfl (htarget _) <|
    .cons rfl (.tablesToEnd fun change hchange =>
      MetadataChange.holds (hchanges change hchange).1 (hchanges change hchange).2) .nil) ?_
  simp only [Width.bytes]
  omega

theorem MetadataChanges.holds {metadata : MetadataChanges}
    (hchanges : ∀ change ∈ metadata.changes,
      Utf8.size change.key < 2 ^ 8 ∧ Utf8.size change.value < 2 ^ 16) :
    FieldsHold [metadata.fields] metadata.fields metadata.kind.schema.fields
      (1 + metadata.target.size + (metadata.changes.map MetadataChange.size).sum) := by
  obtain ⟨address | mosaic | id, changes⟩ := metadata
  · exact holds_target hchanges fun _ => .block address.toBlock
  · exact holds_target hchanges fun _ => .word mosaic.value
  · exact holds_target hchanges fun _ => .word id.value

theorem MetadataEntry.holds_account {entry : MetadataEntry} (hvalue : entry.value.length < 2 ^ 16) :
    FieldsHold [entry.fields] entry.fields accountSchema.fields (44 + entry.value.length) := by
  refine .of_eq (.cons rfl (.block _) <| .cons rfl (.word _) <| .cons rfl (.short _) <|
    .cons rfl (.number hvalue) <| .cons rfl (.vector rfl (by omega) rfl) .nil) ?_
  simp only [Width.bytes]
  omega

theorem MetadataEntry.holds_entity {entry : MetadataEntry} {id : UInt64}
    (hvalue : entry.value.length < 2 ^ 16)
    (hentity : entityFields entry.entity = [("target_id", .scalar id)]) :
    FieldsHold [entry.fields] entry.fields entitySchema.fields (52 + entry.value.length) := by
  rw [fields, hentity]
  refine .of_eq (.cons rfl (.block _) <| .cons rfl (.word _) <| .cons rfl (.word id) <|
    .cons rfl (.short _) <| .cons rfl (.number hvalue) <|
    .cons rfl (.vector rfl (by omega) rfl) .nil) ?_
  simp only [Width.bytes]
  omega

theorem MetadataEntry.holds {entry : MetadataEntry} (hvalue : entry.value.length < 2 ^ 16) :
    FieldsHold [entry.fields] entry.fields entry.kind.schema.fields
      (44 + entry.entity.size + entry.value.length) := by
  obtain ⟨_, _, _ | id | id, _, _⟩ := entry
  · exact holds_account hvalue
  · exact holds_entity hvalue rfl
  · exact holds_entity hvalue rfl

theorem LevyChange.holds (change : LevyChange) (network : Network) :
    FieldsHold [change.fields network] (change.fields network) schema.fields 50 :=
  .cons rfl (.word _) <| .cons rfl (change.levy.holds network) .nil

theorem LevyRemoval.holds (removal : LevyRemoval) :
    FieldsHold [removal.fields] removal.fields schema.fields 8 :=
  .cons rfl (.word _) .nil

theorem Offer.holds_list {α : Type} {write : α → FieldSet} {offers : List α} {name : String}
    {offer : Schema} {size : Nat} (hoffers : offers.length < 2 ^ 8)
    (hoffer : ∀ scope a, FieldsHold scope (write a) offer.fields size) :
    FieldsHold [listFields write offers] (listFields write offers) (listSchema name offer).fields
      (1 + size * offers.length) := by
  refine .of_eq (.cons rfl (.number hoffers) <|
    .cons rfl (.tables rfl (by omega) fun a _ => hoffer _ a) .nil) ?_
  rw [Layout.sum_map_const]
  simp only [Width.bytes, Nat.add_zero]

theorem NewOffer.holds_list {offers : List NewOffer} (hoffers : offers.length < 2 ^ 8) :
    FieldsHold [Offer.listFields fields offers] (Offer.listFields fields offers) schema.fields
      (1 + 33 * offers.length) :=
  Offer.holds_list hoffers fun _ _ =>
    .cons rfl (.word _) <| .cons rfl (.word _) <| .cons rfl (.word _) <|
    .cons rfl (.coded (by decide) _) <| .cons rfl (.word _) .nil

theorem TakenOffer.holds_list {offers : List TakenOffer} (hoffers : offers.length < 2 ^ 8) :
    FieldsHold [Offer.listFields fields offers] (Offer.listFields fields offers) schema.fields
      (1 + 57 * offers.length) :=
  Offer.holds_list hoffers fun _ _ =>
    .cons rfl (.word _) <| .cons rfl (.word _) <| .cons rfl (.word _) <|
    .cons rfl (.coded (by decide) _) <| .cons rfl (.block _) .nil

theorem WithdrawnOffer.holds_list {offers : List WithdrawnOffer} (hoffers : offers.length < 2 ^ 8) :
    FieldsHold [Offer.listFields fields offers] (Offer.listFields fields offers) schema.fields
      (1 + 9 * offers.length) :=
  Offer.holds_list hoffers fun _ _ => .cons rfl (.word _) <| .cons rfl (.coded (by decide) _) .nil

theorem ContractChange.holds {contract : ContractChange}
    (hcustomers : contract.customers.length < 2 ^ 8)
    (hexecutors : contract.executors.length < 2 ^ 8)
    (hverifiers : contract.verifiers.length < 2 ^ 8) :
    FieldsHold [contract.fields] contract.fields schema.fields
      (43 + 33 * contract.customers.length + 33 * contract.executors.length
        + 33 * contract.verifiers.length) := by
  refine .of_eq (.cons rfl (.word _) <| .cons rfl (.block _) <| .cons rfl (.number hcustomers) <|
    .cons rfl (.number hexecutors) <| .cons rfl (.number hverifiers) <|
    .cons rfl (.tables rfl (by omega) fun m _ => cosignatory_holds m) <|
    .cons rfl (.tables rfl (by omega) fun m _ => cosignatory_holds m) <|
    .cons rfl (.tables rfl (by omega) fun m _ => cosignatory_holds m) .nil) ?_
  rw [Layout.sum_map_const, Layout.sum_map_const, Layout.sum_map_const]
  simp only [Width.bytes]
  omega

theorem NetworkConfig.holds {settings : NetworkConfig}
    (hconfig : Utf8.size settings.config < 2 ^ 16)
    (hversions : Utf8.size settings.entityVersions < 2 ^ 16) :
    FieldsHold [settings.fields] settings.fields schema.fields
      (12 + Utf8.size settings.config + Utf8.size settings.entityVersions) := by
  refine .of_eq (.cons rfl (.word _) <| .cons rfl (.number hconfig) <|
    .cons rfl (.number hversions) <| .cons rfl (.text rfl (by omega)) <|
    .cons rfl (.text rfl (by omega)) .nil) ?_
  simp only [Width.bytes]
  omega

theorem NetworkUpgrade.holds (upgrade : NetworkUpgrade) :
    FieldsHold [upgrade.fields] upgrade.fields schema.fields 16 :=
  .cons rfl (.word _) <| .cons rfl (.word _) .nil

theorem DrivePreparation.holds (drive : DrivePreparation) :
    FieldsHold [drive.fields] drive.fields schema.fields 69 :=
  .cons rfl (.block _) <| .cons rfl (.word _) <| .cons rfl (.word _) <|
    .cons rfl (.word _) <| .cons rfl (.word _) <| .cons rfl (.short _) <| .cons rfl (.short _) <|
    .cons rfl (.byte _) .nil

/-! ## Operations -/

theorem Operation.holds {operation : Operation} (h : operation.Sized) (network : Network) :
    FieldsHold [operation.fields network] (operation.fields network) operation.kind.schema.fields
      operation.size := by
  cases operation with
  | transfer x => exact Transfer.holds h.1 h.2 network
  | mosaicDefinition x => exact x.holds
  | supplyChange x => exact x.holds
  | registration x => exact Registration.holds h
  | nameLink x => exact x.holds
  | accountFilter x => exact AccountFilter.holds h
  | multisig x => exact Multisig.holds h
  | fundsLock x => exact x.holds
  | secretLock x => exact x.holds network
  | secretProof x => exact SecretProof.holds h network
  | metadataChanges x => exact MetadataChanges.holds h
  | accountLink x => exact x.holds
  | metadataEntry x => exact MetadataEntry.holds h
  | levyChange x => exact x.holds network
  | levyRemoval x => exact x.holds
  | newOffers offers => exact NewOffer.holds_list h
  | takenOffers offers => exact TakenOffer.holds_list h
  | withdrawnOffers offers => exact WithdrawnOffer.holds_list h
  | contractChange x => exact ContractChange.holds h.1 h.2.1 h.2.2
  | networkConfig x => exact NetworkConfig.holds h.1 h.2
  | networkUpgrade x => exact x.holds
  | drivePreparation x => exact x.holds

theorem Operation.fits_of_sized {operation : Operation} (h : operation.Sized) (network : Network) :
    Fits (operation.fields network) operation.kind.schema.fields
      ∧ (rawFields (operation.fields network) operation.kind.schema.fields).length
        = operation.size := by
  have hholds := holds h network
  exact ⟨hholds.fits (operation.nested_fields network), hholds.length_eq⟩

end LedgerTx
