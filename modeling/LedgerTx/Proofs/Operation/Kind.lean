import LedgerTx.Proofs.Operation.Body
import LedgerTx.Proofs.Operation.Holds

/-!
# Operations by kind

The values of an operation are read back as the operation, and what is read
from values of a kind has this kind and can be written again.  The values
that it is written with are the same, except where a mosaic definition or a
recipient was not in the form that writing gives.
-/

namespace LedgerTx

open Layout (FieldSet FieldSpec Value Schema Kind Scope Same Fits FieldsHold Nested fieldNames
  mentionedFields rawFields)
open Layout.FieldSet

attribute [local simp] get?_cons FieldSpec.u8 FieldSpec.u16 FieldSpec.u32 FieldSpec.u64
  FieldSpec.array FieldSpec.vector FieldSpec.table FieldSpec.tables FieldSpec.tablesToEnd

variable {fields : FieldSet} {read : FieldSet → Except PayloadError Operation}

/-! ## Keys -/

namespace Operation

def keys : Operation → List PublicKey
  | multisig operation => operation.changes.map Modification.value
  | accountLink operation => [operation.remote]
  | metadataEntry operation => [operation.targetKey]
  | takenOffers offers => offers.map TakenOffer.owner
  | contractChange operation =>
      (operation.customers ++ operation.executors ++ operation.verifiers).map Modification.value
  | drivePreparation operation => [operation.owner]
  | _ => []

def Accepted (operation : Operation) : Prop :=
  ∀ key ∈ operation.keys, key.Accepted

end Operation

/-! ## Reading what is written -/

theorem BodyReader.ofType_eq {α : Type} {readBody : FieldSet → Except PayloadError α}
    {wrap : α → Operation} {a : α} (h : ofType readBody wrap = .operation read)
    (ha : readBody fields = .ok a) : read fields = .ok (wrap a) := by
  cases h
  exact map_eq_ok.mpr ⟨a, ha, rfl⟩

theorem BodyReader.exists_of_ofType {α : Type} {readBody : FieldSet → Except PayloadError α}
    {wrap : α → Operation} {operation : Operation} (h : ofType readBody wrap = .operation read)
    (hread : read fields = .ok operation) :
    ∃ a, readBody fields = .ok a ∧ wrap a = operation := by
  cases h
  exact map_eq_ok.mp hread

theorem Operation.read_of_same {operation : Operation} {network : Network}
    (hreader : operation.kind.reader = .operation read)
    (h : Fits fields operation.kind.schema.fields) (haccepted : operation.Accepted)
    (hsame : Same fields (operation.fields network) operation.kind.schema.fields) :
    read fields = .ok operation := by
  cases operation with
  | transfer x => exact BodyReader.ofType_eq hreader ((Transfer.ofFields_eq_ok h).mpr ⟨_, hsame⟩)
  | mosaicDefinition x =>
      exact BodyReader.ofType_eq hreader (MosaicDefinition.ofFields_of_same hsame)
  | supplyChange x => exact BodyReader.ofType_eq hreader (SupplyChange.ofFields_eq_ok.mpr hsame)
  | registration x => exact BodyReader.ofType_eq hreader ((Registration.ofFields_eq_ok h).mpr hsame)
  | nameLink x =>
      obtain ⟨_, _, _ | _⟩ := x
      · exact BodyReader.ofType_eq hreader (NameLink.ofAddressFields_eq_ok.mpr ⟨rfl, hsame⟩)
      · exact BodyReader.ofType_eq hreader (NameLink.ofMosaicFields_eq_ok.mpr ⟨rfl, hsame⟩)
  | accountFilter x =>
      obtain ⟨_, _ | _ | _⟩ := x
      · exact BodyReader.ofType_eq hreader ((AccountFilter.ofAddressFields_eq_ok h).mpr ⟨rfl, hsame⟩)
      · exact BodyReader.ofType_eq hreader ((AccountFilter.ofMosaicFields_eq_ok h).mpr ⟨rfl, hsame⟩)
      · exact BodyReader.ofType_eq hreader ((AccountFilter.ofKindFields_eq_ok h).mpr ⟨rfl, hsame⟩)
  | multisig x =>
      exact BodyReader.ofType_eq hreader
        ((Multisig.ofFields_eq_ok h).mpr ⟨List.forall_mem_map.mp haccepted, hsame⟩)
  | fundsLock x => exact BodyReader.ofType_eq hreader (FundsLock.ofFields_eq_ok.mpr hsame)
  | secretLock x => exact BodyReader.ofType_eq hreader (SecretLock.ofFields_eq_ok.mpr ⟨_, hsame⟩)
  | secretProof x =>
      exact BodyReader.ofType_eq hreader ((SecretProof.ofFields_eq_ok h).mpr ⟨_, hsame⟩)
  | metadataChanges x =>
      obtain ⟨_ | _ | _, _⟩ := x
      · exact BodyReader.ofType_eq hreader
          ((MetadataChanges.ofAddressFields_eq_ok h).mpr ⟨rfl, hsame⟩)
      · exact BodyReader.ofType_eq hreader
          ((MetadataChanges.ofMosaicFields_eq_ok h).mpr ⟨rfl, hsame⟩)
      · exact BodyReader.ofType_eq hreader
          ((MetadataChanges.ofNamespacedFields_eq_ok h).mpr ⟨rfl, hsame⟩)
  | accountLink x =>
      exact BodyReader.ofType_eq hreader
        (AccountLink.ofFields_eq_ok.mpr ⟨haccepted _ List.mem_cons_self, hsame⟩)
  | metadataEntry x =>
      have hkey : x.targetKey.Accepted := haccepted _ List.mem_cons_self
      obtain ⟨_, _, _ | _ | _, _, _⟩ := x
      · exact BodyReader.ofType_eq hreader
          ((MetadataEntry.ofAccountFields_eq_ok h).mpr ⟨rfl, hkey, hsame⟩)
      · exact BodyReader.ofType_eq hreader
          ((MetadataEntry.ofMosaicFields_eq_ok h).mpr ⟨rfl, hkey, hsame⟩)
      · exact BodyReader.ofType_eq hreader
          ((MetadataEntry.ofNamespacedFields_eq_ok h).mpr ⟨rfl, hkey, hsame⟩)
  | levyChange x => exact BodyReader.ofType_eq hreader ((LevyChange.ofFields_eq_ok h).mpr ⟨_, hsame⟩)
  | levyRemoval x => exact BodyReader.ofType_eq hreader (LevyRemoval.ofFields_eq_ok.mpr hsame)
  | newOffers offers =>
      exact BodyReader.ofType_eq hreader ((NewOffer.listOf_eq_ok h).mpr hsame)
  | takenOffers offers =>
      exact BodyReader.ofType_eq hreader
        ((TakenOffer.listOf_eq_ok h).mpr ⟨List.forall_mem_map.mp haccepted, hsame⟩)
  | withdrawnOffers offers =>
      exact BodyReader.ofType_eq hreader ((WithdrawnOffer.listOf_eq_ok h).mpr hsame)
  | contractChange x =>
      exact BodyReader.ofType_eq hreader
        ((ContractChange.ofFields_eq_ok h).mpr ⟨List.forall_mem_map.mp haccepted, hsame⟩)
  | networkConfig x =>
      exact BodyReader.ofType_eq hreader ((NetworkConfig.ofFields_eq_ok h).mpr hsame)
  | networkUpgrade x =>
      exact BodyReader.ofType_eq hreader (NetworkUpgrade.ofFields_eq_ok.mpr hsame)
  | drivePreparation x =>
      exact BodyReader.ofType_eq hreader
        (DrivePreparation.ofFields_eq_ok.mpr ⟨haccepted _ List.mem_cons_self, hsame⟩)

theorem TransactionKind.read_congr {kind : TransactionKind} {others : FieldSet}
    (hreader : kind.reader = .operation read) (hsame : Same fields others kind.schema.fields) :
    read fields = read others := by
  cases kind with
  | aggregateComplete | aggregateBonded => cases hreader
  | _ =>
      cases hreader
      -- every reader takes the values that it needs by their names
      simp (disch := decide) only [hsame _, scalar, scalarBelow, scalar8, scalar16, scalar32, array,
        block, vector, table, tableArray, Content.coded, Content.keyIn, Content.address,
        Content.recipient, Transfer.ofFields, MosaicDefinition.ofFields, SupplyChange.ofFields,
        Registration.ofFields, NameLink.ofAddressFields, NameLink.ofMosaicFields,
        NameLink.withTarget, Multisig.ofFields, FundsLock.ofFields, FundsLock.mosaicOf,
        AccountFilter.ofAddressFields, AccountFilter.ofMosaicFields, AccountFilter.ofKindFields,
        AccountFilter.ofFieldsWith, SecretLock.ofFields, SecretProof.ofFields,
        AccountLink.ofFields, MetadataChanges.ofAddressFields, MetadataChanges.ofMosaicFields,
        MetadataChanges.ofNamespacedFields, MetadataChanges.withTarget,
        MetadataEntry.ofAccountFields, MetadataEntry.ofMosaicFields,
        MetadataEntry.ofNamespacedFields, MetadataEntry.withEntity, LevyChange.ofFields,
        LevyRemoval.ofFields, Offer.listOf, ContractChange.ofFields, NetworkConfig.ofFields,
        NetworkUpgrade.ofFields, DrivePreparation.ofFields]

/-! ## Nested tables -/

theorem nested_cons {values : FieldSet} {name : String} {kind : Kind} {rest : List FieldSpec} :
    Nested values (⟨name, kind⟩ :: rest)
      ↔ (∀ value, values.get? name = some value → Kind.Exact value kind) ∧ Nested values rest := by
  constructor
  · intro h
    exact ⟨h name kind List.mem_cons_self,
      fun other kind' hmem => h other kind' (List.mem_cons_of_mem _ hmem)⟩
  · rintro ⟨hhead, hrest⟩ other kind' hmem
    rcases List.mem_cons.mp hmem with heq | hlater
    · cases heq
      exact hhead
    · exact hrest other kind' hlater

theorem nested_nil (values : FieldSet) : Nested values [] :=
  fun _ _ hmem => nomatch hmem

theorem MosaicDefinition.exact_listed (properties : MosaicProperties) :
    ∀ table ∈ listed properties, Schema.Exact table propertySchema := by
  intro table htable
  unfold listed at htable
  split at htable
  · cases htable
  · rw [List.mem_singleton.mp htable]
    exact ⟨_, _, rfl, trivial, _, _, rfl, trivial, rfl⟩

theorem AccountFilter.exact_changeFields {α : Type} (write : α → Value) {name : String}
    {kind : Kind} (hkind : ∀ value, Kind.Exact value kind) (m : Modification α) :
    Schema.Exact (changeFields write m) ⟨name, [.u8 "type", ⟨"value", kind⟩]⟩ :=
  ⟨_, _, rfl, trivial, _, _, rfl, hkind _, rfl⟩

theorem AccountFilter.nested_fields {filter : AccountFilter} {name entry : String} {kind : Kind}
    {α : Type} {write : α → Value} {list : List (Modification α)}
    (hkind : ∀ value, Kind.Exact value kind)
    (hlist : changesFields filter.changes = list.map (changeFields write)) :
    Nested filter.fields (listSchema name ⟨entry, [.u8 "type", ⟨"value", kind⟩]⟩).fields := by
  simp [AccountFilter.fields, listSchema, nested_cons, nested_nil, Kind.Exact, hlist]
  exact fun m _ => exact_changeFields write hkind m

theorem exact_cosignatoryFields (list : List (Modification PublicKey)) :
    ∀ table ∈ cosignatoryFields list, Schema.Exact table cosignatorySchema := by
  intro table htable
  obtain ⟨m, -, rfl⟩ := List.mem_map.mp htable
  exact ⟨_, _, rfl, trivial, _, _, rfl, trivial, rfl⟩

theorem MetadataChanges.nested_fields (metadata : MetadataChanges) {name : String}
    {target : FieldSpec} (htarget : ∀ value, Kind.Exact value target.kind) :
    Nested metadata.fields (schemaWith name target).fields := by
  have hchange (m : MetadataChange) : Schema.Exact (changeFields m) changeSchema :=
    ⟨_, _, rfl, trivial, _, _, rfl, trivial, _, _, rfl, trivial, _, _, rfl, trivial, _, _, rfl,
      trivial, _, _, rfl, trivial, rfl⟩
  obtain ⟨key, kind⟩ := target
  simp [MetadataChanges.fields, schemaWith, nested_cons, nested_nil, Kind.Exact, hchange, htarget]

theorem Offer.nested_listFields {α : Type} {write : α → FieldSet} {offers : List α} {name : String}
    {offer : Schema} (h : ∀ a, Schema.Exact (write a) offer) :
    Nested (listFields write offers) (listSchema name offer).fields := by
  simp [listFields, listSchema, nested_cons, nested_nil, Kind.Exact, h]

theorem Operation.nested_fields (operation : Operation) (network : Network) :
    Nested (operation.fields network) operation.kind.schema.fields := by
  cases operation with
  | transfer x =>
      have hmessage : Schema.Exact (Transfer.messageFields x.message) Transfer.messageSchema :=
        ⟨_, _, rfl, trivial, _, _, rfl, trivial, rfl⟩
      have hmosaic (mosaic : Mosaic) :
          Schema.Exact (Transfer.mosaicFields mosaic) Transfer.mosaicSchema :=
        ⟨_, _, rfl, trivial, _, _, rfl, trivial, rfl⟩
      simp [Operation.fields, Operation.kind, TransactionKind.schema, Transfer.fields,
        Transfer.schema, nested_cons, nested_nil, Kind.Exact, hmessage, hmosaic]
  | mosaicDefinition x =>
      have hlisted := MosaicDefinition.exact_listed x.properties
      simp [Operation.fields, Operation.kind, TransactionKind.schema, MosaicDefinition.fields,
        MosaicDefinition.schema, nested_cons, nested_nil, Kind.Exact]
      exact hlisted
  | accountFilter x =>
      obtain ⟨_, _ | _ | _⟩ := x
      · exact AccountFilter.nested_fields (fun _ => trivial) rfl
      · exact AccountFilter.nested_fields (fun _ => trivial) rfl
      · exact AccountFilter.nested_fields (fun _ => trivial) rfl
  | multisig x =>
      simp [Operation.fields, Operation.kind, TransactionKind.schema, Multisig.fields,
        Multisig.schema, nested_cons, nested_nil, Kind.Exact]
      exact exact_cosignatoryFields x.changes
  | metadataChanges x =>
      obtain ⟨_ | _ | _, _⟩ := x
      · exact MetadataChanges.nested_fields _ fun _ => trivial
      · exact MetadataChanges.nested_fields _ fun _ => trivial
      · exact MetadataChanges.nested_fields _ fun _ => trivial
  | levyChange x =>
      have hlevy : Schema.Exact (x.levy.fields network) Levy.schema :=
        ⟨_, _, rfl, trivial, _, _, rfl, trivial, _, _, rfl, trivial, _, _, rfl, trivial, rfl⟩
      simp [Operation.fields, Operation.kind, TransactionKind.schema, LevyChange.fields,
        LevyChange.schema, nested_cons, nested_nil, Kind.Exact, hlevy]
  | newOffers offers =>
      exact Offer.nested_listFields fun _ => ⟨_, _, rfl, trivial, _, _, rfl, trivial, _, _, rfl,
        trivial, _, _, rfl, trivial, _, _, rfl, trivial, rfl⟩
  | takenOffers offers =>
      exact Offer.nested_listFields fun _ => ⟨_, _, rfl, trivial, _, _, rfl, trivial, _, _, rfl,
        trivial, _, _, rfl, trivial, _, _, rfl, trivial, rfl⟩
  | withdrawnOffers offers =>
      exact Offer.nested_listFields fun _ => ⟨_, _, rfl, trivial, _, _, rfl, trivial, rfl⟩
  | contractChange x =>
      have hlist := exact_cosignatoryFields
      simp [Operation.fields, Operation.kind, TransactionKind.schema, ContractChange.fields,
        ContractChange.schema, nested_cons, nested_nil, Kind.Exact]
      exact ⟨hlist x.customers, hlist x.executors, hlist x.verifiers⟩
  | nameLink x =>
      obtain ⟨_, _, _ | _⟩ := x <;>
        simp [Operation.kind, TransactionKind.schema, NameLink.kind, NameLink.addressSchema,
          NameLink.mosaicSchema, nested_cons, nested_nil, Kind.Exact]
  | metadataEntry x =>
      obtain ⟨_, _, _ | _ | _, _, _⟩ := x <;>
        simp [Operation.kind, TransactionKind.schema, MetadataEntry.kind,
          MetadataEntry.accountSchema, MetadataEntry.entitySchema, nested_cons, nested_nil,
          Kind.Exact]
  | supplyChange _ | registration _ | fundsLock _ | secretLock _ | secretProof _ | accountLink _
  | levyRemoval _ | networkConfig _ | networkUpgrade _ | drivePreparation _ =>
      simp [Operation.kind, TransactionKind.schema, SupplyChange.schema, Registration.schema,
        FundsLock.schema, SecretLock.schema, SecretProof.schema, AccountLink.schema,
        LevyRemoval.schema, NetworkConfig.schema, NetworkUpgrade.schema, DrivePreparation.schema,
        nested_cons, nested_nil, Kind.Exact]

/-! ## Writing what was read -/

/-- Whether a namespace recipient has the network byte that writing gives it. -/
def Recipient.OnNetwork (network : Network) (bytes : Bytes) : Prop :=
  ∀ byte, bytes.head? = some byte → byte &&& 1 = 1 → byte = network.byte ||| 1

/--
Whether the values of a kind are in the form that writing gives: a mosaic
definition has at most one property and no flag above the lowest three, and
a recipient that is a namespace has the network byte of the transaction.
-/
def TransactionKind.Kept (network : Network) (fields : FieldSet) : TransactionKind → Prop
  | mosaicDefinition =>
      (∀ tables, fields.get? "properties" = some (.tableArray tables) → tables.length ≤ 1)
        ∧ ∀ flags, fields.get? "flags" = some (.scalar flags) → flags.toNat < 8
  | transfer | secretLock | secretProof =>
      ∀ bytes, fields.get? "recipient" = some (.array bytes) → Recipient.OnNetwork network bytes
  | modifyMosaicLevy =>
      ∀ levy, fields.get? "levy" = some (.table levy) →
        ∀ bytes, FieldSet.get? levy "recipient" = some (.array bytes) →
          Recipient.OnNetwork network bytes
  | _ => True

theorem TransactionKind.Kept.congr {kind : TransactionKind} {network : Network} {others : FieldSet}
    (h : kind.Kept network fields) (hsame : Same fields others kind.schema.fields) :
    kind.Kept network others := by
  cases kind with
  | mosaicDefinition =>
      rw [Kept, hsame "properties" (by decide), hsame "flags" (by decide)] at h
      exact h
  | transfer | secretLock | secretProof =>
      rw [Kept, hsame "recipient" (by decide)] at h
      exact h
  | modifyMosaicLevy =>
      rw [Kept, hsame "levy" (by decide)] at h
      exact h
  | _ => trivial

theorem Recipient.onNetwork_toBlock (recipient : Recipient) (network : Network) :
    OnNetwork network (recipient.toBlock network).bytes := by
  intro byte hbyte hodd
  cases recipient with
  | account address =>
      cases hbyte
      rw [Network.byte_and_one] at hodd
      cases hodd
  | named id =>
      cases hbyte
      rfl

theorem MosaicDefinition.length_listed_le_one (properties : MosaicProperties) :
    (listed properties).length ≤ 1 := by
  unfold listed
  split <;> simp

theorem MosaicProperties.flags_lt (properties : MosaicProperties) :
    properties.flags.toNat < 8 := by
  have hall : ∀ supply transfer levy : Bool,
      (MosaicProperties.flags ⟨supply, transfer, levy, 0, none⟩).toNat < 8 := by decide
  exact hall properties.supplyMutable properties.transferable properties.levyMutable

/-- The values of an operation have the written form on the network they are written for. -/
theorem Operation.kept_fields (operation : Operation) (network : Network) :
    operation.kind.Kept network (operation.fields network) := by
  cases operation with
  | transfer x | secretLock x | secretProof x =>
      intro bytes hbytes
      cases hbytes
      exact x.recipient.onNetwork_toBlock network
  | levyChange x =>
      intro levy hlevy bytes hbytes
      cases hlevy
      cases hbytes
      exact x.levy.recipient.onNetwork_toBlock network
  | mosaicDefinition x =>
      constructor
      · intro tables htables
        cases htables
        exact MosaicDefinition.length_listed_le_one x.properties
      · intro flags hflags
        have hlt := x.properties.flags.toNat_lt
        rw [toNat_of_scalar_eq_number (Option.some.inj hflags).symm (by omega)]
        exact x.properties.flags_lt
  | nameLink x => obtain ⟨_, _, _ | _⟩ := x <;> trivial
  | accountFilter x => obtain ⟨_, _ | _ | _⟩ := x <;> trivial
  | metadataChanges x => obtain ⟨_ | _ | _, _⟩ := x <;> trivial
  | metadataEntry x => obtain ⟨_, _, _ | _ | _, _, _⟩ := x <;> trivial
  | _ => trivial

theorem Recipient.toBlock_of_onNetwork {recipient : Recipient} {network source : Network}
    (h : OnNetwork network (recipient.toBlock source).bytes) :
    recipient.toBlock source = recipient.toBlock network := by
  cases recipient with
  | account address => rfl
  | named id =>
      have hbyte := h _ rfl (Network.byte_or_one_and_one source)
      have hclear := congrArg (· &&& 0xfe) hbyte
      simp only [Network.byte_or_one_clear] at hclear
      rw [Network.byte_inj hclear]

/-- What holds of an operation that was read from the values of a kind. -/
structure Operation.ReadFrom (kind : TransactionKind) (fields : FieldSet) (operation : Operation) :
    Prop where
  kind_eq : operation.kind = kind
  accepted : operation.Accepted
  fits : ∀ network, Fits (operation.fields network) kind.schema.fields
  length_le : ∀ network, (rawFields (operation.fields network) kind.schema.fields).length
    ≤ (rawFields fields kind.schema.fields).length
  same : ∀ network, kind.Kept network fields →
    Same fields (operation.fields network) kind.schema.fields

theorem TransactionKind.closed_schema : ∀ kind : TransactionKind,
    ∀ name ∈ mentionedFields kind.schema.fields, name ∈ fieldNames kind.schema.fields :=
  Coded.forall_of_all (by decide)

theorem Operation.ReadFrom.of_same {kind : TransactionKind} {operation : Operation}
    (h : Fits fields kind.schema.fields) (hkind : operation.kind = kind)
    (haccepted : operation.Accepted)
    (hsame : ∀ network, Same fields (operation.fields network) kind.schema.fields) :
    operation.ReadFrom kind fields where
  kind_eq := hkind
  accepted := haccepted
  fits network :=
    h.congr (hsame network) fun name hname => hsame network name (kind.closed_schema name hname)
  length_le network := Nat.le_of_eq (congrArg List.length (Layout.rawFields.congr (hsame network)).symm)
  same network _ := hsame network

/-- An operation that has the values it was read from but for one, of fixed size. -/
theorem Operation.ReadFrom.of_replaced {kind : TransactionKind} {operation : Operation}
    {source : Network} (name : String) (h : Fits fields kind.schema.fields)
    (hkind : operation.kind = kind) (haccepted : operation.Accepted)
    (hsame : Same fields (operation.fields source) kind.schema.fields)
    (hunused : name ∉ mentionedFields kind.schema.fields)
    (hothers : ∀ network other, other ≠ name →
      (operation.fields source).get? other = (operation.fields network).get? other)
    (hvalue : ∀ network layout, ⟨name, layout⟩ ∈ kind.schema.fields → layout.fixed = true
      ∧ ∃ value, (operation.fields network).get? name = some value ∧ Kind.Exact value layout
        ∧ Kind.Shaped value layout ∧ ∀ scope, Kind.Declared scope value layout)
    (hkept : ∀ network, kind.Kept network fields →
      (operation.fields source).get? name = (operation.fields network).get? name) :
    operation.ReadFrom kind fields := by
  have hsource := h.congr hsame fun other hother => hsame other (kind.closed_schema other hother)
  have hfits (network : Network) : Fits (operation.fields network) kind.schema.fields :=
    hsource.replace name hunused kind.closed_schema (fun other _ => hothers network other)
      fun layout hmem => (hvalue network layout hmem).2
  refine ⟨hkind, haccepted, hfits, fun network => ?_, fun network hform other hother => ?_⟩
  · rw [Layout.rawFields.congr hsame]
    refine Nat.le_of_eq (Layout.length_rawFields_eq (hfits network).shaped hsource.shaped ?_)
    intro other layout hmem
    by_cases heq : other = name
    · subst heq
      exact .inl (hvalue network layout hmem).1
    · exact .inr (hothers network other heq).symm
  · by_cases heq : other = name
    · subst heq
      exact (hsame other hother).trans (hkept network hform)
    · exact (hsame other hother).trans (hothers network other heq)

theorem Recipient.value_toBlock (recipient : Recipient) (network : Network) :
    ∃ value, some (Value.block (recipient.toBlock network)) = some value
      ∧ Kind.Exact value (.array 25) ∧ Kind.Shaped value (.array 25)
      ∧ ∀ scope, Kind.Declared scope value (.array 25) :=
  ⟨_, rfl, trivial, ⟨_, rfl, (recipient.toBlock network).length_bytes⟩, fun _ => trivial⟩

theorem Operation.ReadFrom.of_recipient {kind : TransactionKind} {operation : Operation}
    {source : Network} {recipient : Recipient} (h : Fits fields kind.schema.fields)
    (hrecipient : kind = .transfer ∨ kind = .secretLock ∨ kind = .secretProof)
    (hkind : operation.kind = kind) (haccepted : operation.Accepted)
    (hsame : Same fields (operation.fields source) kind.schema.fields)
    (hvalue : ∀ network, (operation.fields network).get? "recipient"
      = some (.block (recipient.toBlock network)))
    (hothers : ∀ network other, other ≠ "recipient" →
      (operation.fields source).get? other = (operation.fields network).get? other) :
    operation.ReadFrom kind fields := by
  have hmem : "recipient" ∈ fieldNames kind.schema.fields := by
    rcases hrecipient with rfl | rfl | rfl <;> decide
  have hunused : "recipient" ∉ mentionedFields kind.schema.fields := by
    rcases hrecipient with rfl | rfl | rfl <;> decide
  have hread := (hsame "recipient" hmem).trans (hvalue source)
  refine .of_replaced "recipient" h hkind haccepted hsame hunused hothers ?_ ?_
  · intro network layout hfield
    have hlayout : layout = .array 25 := by
      rcases hrecipient with rfl | rfl | rfl <;>
        simpa [TransactionKind.schema, Transfer.schema, SecretLock.schema, SecretProof.schema]
          using hfield
    rw [hlayout, hvalue]
    exact ⟨rfl, recipient.value_toBlock network⟩
  · intro network hkept
    have hform : Recipient.OnNetwork network (recipient.toBlock source).bytes := by
      rcases hrecipient with rfl | rfl | rfl <;> exact hkept _ hread
    rw [hvalue, hvalue, Recipient.toBlock_of_onNetwork hform]

theorem Transfer.readFrom {transfer : Transfer} (h : Fits fields schema.fields)
    (hread : ofFields fields = .ok transfer) :
    (Operation.transfer transfer).ReadFrom .transfer fields := by
  obtain ⟨source, hsame⟩ := (ofFields_eq_ok h).mp hread
  refine .of_recipient h (by simp) rfl (fun _ hkey => nomatch hkey) hsame (fun _ => rfl) ?_
  intro network other hother
  simp [Operation.fields, Transfer.fields, hother]

theorem SecretLock.readFrom {lock : SecretLock} (h : Fits fields schema.fields)
    (hread : ofFields fields = .ok lock) :
    (Operation.secretLock lock).ReadFrom .secretLock fields := by
  obtain ⟨source, hsame⟩ := ofFields_eq_ok.mp hread
  refine .of_recipient h (by simp) rfl (fun _ hkey => nomatch hkey) hsame (fun _ => rfl) ?_
  intro network other hother
  simp [Operation.fields, SecretLock.fields, hother]

theorem SecretProof.readFrom {proof : SecretProof} (h : Fits fields schema.fields)
    (hread : ofFields fields = .ok proof) :
    (Operation.secretProof proof).ReadFrom .secretProof fields := by
  obtain ⟨source, hsame⟩ := (ofFields_eq_ok h).mp hread
  refine .of_recipient h (by simp) rfl (fun _ hkey => nomatch hkey) hsame (fun _ => rfl) ?_
  intro network other hother
  simp [Operation.fields, SecretProof.fields, hother]

theorem Levy.holds {scope : Scope} (levy : Levy) (network : Network) :
    Kind.Holds scope (.table (levy.fields network)) (.table schema) 42 :=
  .table <| .cons rfl (.coded (by decide) _) <| .cons rfl (.block _) <| .cons rfl (.word _) <|
    .cons rfl (.word _) .nil

theorem Levy.value_fields (levy : Levy) (network : Network) :
    ∃ value, some (Value.table (levy.fields network)) = some value
      ∧ Kind.Exact value (.table schema) ∧ Kind.Shaped value (.table schema)
      ∧ ∀ scope, Kind.Declared scope value (.table schema) := by
  refine ⟨_, rfl, ?_, (@holds [] levy network).shaped, fun scope => (levy.holds network).declared⟩
  rintro _ ⟨⟩
  exact ⟨_, _, rfl, trivial, _, _, rfl, trivial, _, _, rfl, trivial, _, _, rfl, trivial, rfl⟩

theorem LevyChange.readFrom {change : LevyChange} (h : Fits fields schema.fields)
    (hread : ofFields fields = .ok change) :
    (Operation.levyChange change).ReadFrom .modifyMosaicLevy fields := by
  obtain ⟨source, hsame⟩ := (ofFields_eq_ok h).mp hread
  refine .of_replaced "levy" h rfl (fun _ hkey => nomatch hkey) hsame (by decide) ?_ ?_ ?_
  · intro network other hother
    simp [Operation.fields, LevyChange.fields, hother]
  · intro network layout hlayout
    simp [TransactionKind.schema, schema] at hlayout
    subst hlayout
    exact ⟨rfl, change.levy.value_fields network⟩
  · intro network hkept
    have hvalue := hsame "levy" (by decide)
    have hblock := Recipient.toBlock_of_onNetwork (hkept _ hvalue _ rfl)
    simp [Operation.fields, LevyChange.fields, Levy.fields, hblock]

namespace MosaicDefinition

theorem holds_listed {scope : Scope} (properties : MosaicProperties)
    (hlookup : scope.lookup "properties_count" = .ok (listed properties).length.toUInt64) :
    Kind.Holds scope (.tableArray (listed properties))
      (.tableArray propertySchema (.named "properties_count"))
      (9 * (listed properties).length) := by
  have hlong : (listed properties).length < 2 ^ 64 :=
    Nat.lt_of_le_of_lt (length_listed_le_one properties) (by decide)
  have hlisted : listed properties = properties.duration.toList.map fun duration =>
      [("id", .number durationId.toNat), ("value", .scalar duration)] := by
    unfold listed
    cases properties.duration <;> rfl
  rw [hlisted, List.length_map] at hlookup hlong ⊢
  rw [← Layout.sum_map_const]
  exact .tables hlookup hlong fun duration _ =>
    .cons rfl (.byte durationId) <| .cons rfl (.word duration) .nil

theorem fits_fields (definition : MosaicDefinition) : Fits definition.fields schema.fields := by
  have hcount : (listed definition.properties).length < 2 ^ 8 :=
    Nat.lt_of_le_of_lt (length_listed_le_one definition.properties) (by decide)
  have hholds : FieldsHold [definition.fields] definition.fields schema.fields _ :=
    .cons rfl (.number definition.nonce.value.toNat_lt) <| .cons rfl (.word _) <|
      .cons rfl (.number hcount) <| .cons rfl (.byte _) <| .cons rfl (.byte _) <|
      .cons rfl (holds_listed definition.properties rfl) .nil
  exact hholds.fits (Operation.nested_fields (.mosaicDefinition definition) .mainNet)

theorem length_raw_properties {tables : List FieldSet}
    (h : ∀ table ∈ tables, Schema.Shaped table propertySchema) (count : Layout.Count) :
    (Kind.raw (.tableArray tables) (.tableArray propertySchema count)).length
      = 9 * tables.length := by
  have heach : tables.map (fun table => (Schema.raw table propertySchema).length)
      = tables.map fun _ => 9 :=
    List.map_congr_left fun table htable =>
      Schema.length_raw_of_fixed propertySchema rfl (h table htable)
  simp only [Kind.raw, List.length_flatMap, heach, List.map_const', List.sum_replicate_nat]
  omega

theorem length_rawFields (h : Fits fields schema.fields) :
    ∃ tables, fields.get? "properties" = some (.tableArray tables)
      ∧ (rawFields fields schema.fields).length = 15 + 9 * tables.length := by
  obtain ⟨_, hvalue, -, ⟨tables, rfl, hshaped⟩, -⟩ :=
    h "properties" (.tableArray propertySchema (.named "properties_count")) (by simp [schema])
  refine ⟨tables, hvalue, ?_⟩
  have hsplit : schema.fields = [.u32 "nonce", .u64 "mosaic_id", .u8 "properties_count",
      .u8 "flags", .u8 "divisibility"]
      ++ [.tables "properties" propertySchema "properties_count"] := rfl
  rw [hsplit, Layout.fits_append] at h
  rw [hsplit, Layout.rawFields_append, List.length_append,
    Layout.length_rawFields_of_fixed _ rfl h.1.shaped]
  simp only [rawFields, FieldSpec.tables, hvalue, List.append_nil,
    length_raw_properties hshaped]
  rfl

theorem readFrom {definition : MosaicDefinition} (h : Fits fields schema.fields)
    (hread : ofFields fields = .ok definition) :
    (Operation.mosaicDefinition definition).ReadFrom .mosaicDefinition fields := by
  refine ⟨rfl, (fun _ hkey => nomatch hkey), fun _ => fits_fields definition, fun _ => ?_,
    fun _ hkept => same_of_ofFields h hread hkept.1 hkept.2⟩
  obtain ⟨tables, htables, hlength⟩ := length_rawFields h
  obtain ⟨written, hwritten, hlengthWritten⟩ := length_rawFields (fits_fields definition)
  obtain ⟨-, -, -, -, found, hfound, hduration⟩ := ofFields_eq_ok.mp hread
  rw [htables] at hfound
  cases hfound
  cases hwritten
  have hle := length_listed_le hduration
  show (rawFields definition.fields schema.fields).length ≤ (rawFields fields schema.fields).length
  omega

end MosaicDefinition

theorem Operation.ReadFrom.of_constant {kind : TransactionKind} {operation : Operation}
    (h : Fits fields kind.schema.fields) (hkind : operation.kind = kind)
    (haccepted : operation.Accepted) {values : FieldSet}
    (hvalues : ∀ network, operation.fields network = values)
    (hsame : Same fields values kind.schema.fields) : operation.ReadFrom kind fields :=
  .of_same h hkind haccepted fun network => (hvalues network).symm ▸ hsame

theorem Operation.readFrom_of_read {kind : TransactionKind} {operation : Operation}
    (hreader : kind.reader = .operation read) (h : Fits fields kind.schema.fields)
    (hread : read fields = .ok operation) : operation.ReadFrom kind fields := by
  have hnone {op : Operation} (hkeys : op.keys = []) : op.Accepted := by
    rw [Accepted, hkeys]
    exact fun _ hkey => nomatch hkey
  cases kind with
  | aggregateComplete | aggregateBonded => cases hreader
  | transfer =>
      obtain ⟨x, hx, rfl⟩ := BodyReader.exists_of_ofType hreader hread
      exact Transfer.readFrom h hx
  | mosaicDefinition =>
      obtain ⟨x, hx, rfl⟩ := BodyReader.exists_of_ofType hreader hread
      exact MosaicDefinition.readFrom h hx
  | secretLock =>
      obtain ⟨x, hx, rfl⟩ := BodyReader.exists_of_ofType hreader hread
      exact SecretLock.readFrom h hx
  | secretProof =>
      obtain ⟨x, hx, rfl⟩ := BodyReader.exists_of_ofType hreader hread
      exact SecretProof.readFrom h hx
  | modifyMosaicLevy =>
      obtain ⟨x, hx, rfl⟩ := BodyReader.exists_of_ofType hreader hread
      exact LevyChange.readFrom h hx
  | mosaicSupplyChange =>
      obtain ⟨x, hx, rfl⟩ := BodyReader.exists_of_ofType hreader hread
      exact .of_constant h rfl (hnone rfl) (fun _ => rfl) (SupplyChange.ofFields_eq_ok.mp hx)
  | registerNamespace =>
      obtain ⟨x, hx, rfl⟩ := BodyReader.exists_of_ofType hreader hread
      exact .of_constant h rfl (hnone rfl) (fun _ => rfl) ((Registration.ofFields_eq_ok h).mp hx)
  | addressAlias =>
      obtain ⟨x, hx, rfl⟩ := BodyReader.exists_of_ofType hreader hread
      obtain ⟨hkind, hsame⟩ := NameLink.ofAddressFields_eq_ok.mp hx
      exact .of_constant h hkind (hnone rfl) (fun _ => rfl) hsame
  | mosaicAlias =>
      obtain ⟨x, hx, rfl⟩ := BodyReader.exists_of_ofType hreader hread
      obtain ⟨hkind, hsame⟩ := NameLink.ofMosaicFields_eq_ok.mp hx
      exact .of_constant h hkind (hnone rfl) (fun _ => rfl) hsame
  | modifyMultisigAccount =>
      obtain ⟨x, hx, rfl⟩ := BodyReader.exists_of_ofType hreader hread
      obtain ⟨hkeys, hsame⟩ := (Multisig.ofFields_eq_ok h).mp hx
      exact .of_constant h rfl (List.forall_mem_map.mpr hkeys) (fun _ => rfl) hsame
  | lockFunds =>
      obtain ⟨x, hx, rfl⟩ := BodyReader.exists_of_ofType hreader hread
      exact .of_constant h rfl (hnone rfl) (fun _ => rfl) (FundsLock.ofFields_eq_ok.mp hx)
  | accountPropertiesAddress =>
      obtain ⟨x, hx, rfl⟩ := BodyReader.exists_of_ofType hreader hread
      obtain ⟨hkind, hsame⟩ := (AccountFilter.ofAddressFields_eq_ok h).mp hx
      exact .of_constant h hkind (hnone rfl) (fun _ => rfl) hsame
  | accountPropertiesMosaic =>
      obtain ⟨x, hx, rfl⟩ := BodyReader.exists_of_ofType hreader hread
      obtain ⟨hkind, hsame⟩ := (AccountFilter.ofMosaicFields_eq_ok h).mp hx
      exact .of_constant h hkind (hnone rfl) (fun _ => rfl) hsame
  | accountPropertiesEntityType =>
      obtain ⟨x, hx, rfl⟩ := BodyReader.exists_of_ofType hreader hread
      obtain ⟨hkind, hsame⟩ := (AccountFilter.ofKindFields_eq_ok h).mp hx
      exact .of_constant h hkind (hnone rfl) (fun _ => rfl) hsame
  | accountLink =>
      obtain ⟨x, hx, rfl⟩ := BodyReader.exists_of_ofType hreader hread
      obtain ⟨hkey, hsame⟩ := AccountLink.ofFields_eq_ok.mp hx
      exact .of_constant h rfl (List.forall_mem_singleton.mpr hkey) (fun _ => rfl) hsame
  | modifyAddressMetadata =>
      obtain ⟨x, hx, rfl⟩ := BodyReader.exists_of_ofType hreader hread
      obtain ⟨hkind, hsame⟩ := (MetadataChanges.ofAddressFields_eq_ok h).mp hx
      exact .of_constant h hkind (hnone rfl) (fun _ => rfl) hsame
  | modifyMosaicMetadata =>
      obtain ⟨x, hx, rfl⟩ := BodyReader.exists_of_ofType hreader hread
      obtain ⟨hkind, hsame⟩ := (MetadataChanges.ofMosaicFields_eq_ok h).mp hx
      exact .of_constant h hkind (hnone rfl) (fun _ => rfl) hsame
  | modifyNamespaceMetadata =>
      obtain ⟨x, hx, rfl⟩ := BodyReader.exists_of_ofType hreader hread
      obtain ⟨hkind, hsame⟩ := (MetadataChanges.ofNamespacedFields_eq_ok h).mp hx
      exact .of_constant h hkind (hnone rfl) (fun _ => rfl) hsame
  | accountMetadata =>
      obtain ⟨x, hx, rfl⟩ := BodyReader.exists_of_ofType hreader hread
      obtain ⟨hkind, hkey, hsame⟩ := (MetadataEntry.ofAccountFields_eq_ok h).mp hx
      exact .of_constant h hkind (List.forall_mem_singleton.mpr hkey) (fun _ => rfl) hsame
  | mosaicMetadata =>
      obtain ⟨x, hx, rfl⟩ := BodyReader.exists_of_ofType hreader hread
      obtain ⟨hkind, hkey, hsame⟩ := (MetadataEntry.ofMosaicFields_eq_ok h).mp hx
      exact .of_constant h hkind (List.forall_mem_singleton.mpr hkey) (fun _ => rfl) hsame
  | namespaceMetadata =>
      obtain ⟨x, hx, rfl⟩ := BodyReader.exists_of_ofType hreader hread
      obtain ⟨hkind, hkey, hsame⟩ := (MetadataEntry.ofNamespacedFields_eq_ok h).mp hx
      exact .of_constant h hkind (List.forall_mem_singleton.mpr hkey) (fun _ => rfl) hsame
  | removeMosaicLevy =>
      obtain ⟨x, hx, rfl⟩ := BodyReader.exists_of_ofType hreader hread
      exact .of_constant h rfl (hnone rfl) (fun _ => rfl) (LevyRemoval.ofFields_eq_ok.mp hx)
  | exchangeOfferAdd =>
      obtain ⟨x, hx, rfl⟩ := BodyReader.exists_of_ofType hreader hread
      exact .of_constant h rfl (hnone rfl) (fun _ => rfl) ((NewOffer.listOf_eq_ok h).mp hx)
  | exchangeOffer =>
      obtain ⟨x, hx, rfl⟩ := BodyReader.exists_of_ofType hreader hread
      obtain ⟨hkeys, hsame⟩ := (TakenOffer.listOf_eq_ok h).mp hx
      exact .of_constant h rfl (List.forall_mem_map.mpr hkeys) (fun _ => rfl) hsame
  | exchangeOfferRemove =>
      obtain ⟨x, hx, rfl⟩ := BodyReader.exists_of_ofType hreader hread
      exact .of_constant h rfl (hnone rfl) (fun _ => rfl) ((WithdrawnOffer.listOf_eq_ok h).mp hx)
  | modifyContract =>
      obtain ⟨x, hx, rfl⟩ := BodyReader.exists_of_ofType hreader hread
      obtain ⟨hkeys, hsame⟩ := (ContractChange.ofFields_eq_ok h).mp hx
      exact .of_constant h rfl (List.forall_mem_map.mpr hkeys) (fun _ => rfl) hsame
  | blockchainConfig =>
      obtain ⟨x, hx, rfl⟩ := BodyReader.exists_of_ofType hreader hread
      exact .of_constant h rfl (hnone rfl) (fun _ => rfl) ((NetworkConfig.ofFields_eq_ok h).mp hx)
  | blockchainUpgrade =>
      obtain ⟨x, hx, rfl⟩ := BodyReader.exists_of_ofType hreader hread
      exact .of_constant h rfl (hnone rfl) (fun _ => rfl) (NetworkUpgrade.ofFields_eq_ok.mp hx)
  | drivePrepare =>
      obtain ⟨x, hx, rfl⟩ := BodyReader.exists_of_ofType hreader hread
      obtain ⟨hkey, hsame⟩ := DrivePreparation.ofFields_eq_ok.mp hx
      exact .of_constant h rfl (List.forall_mem_singleton.mpr hkey) (fun _ => rfl) hsame

end LedgerTx
