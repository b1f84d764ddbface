import LedgerTx.Operation.Basic
import LedgerTx.Proofs.Layout.Fits
import LedgerTx.Proofs.Operation.Content

/-!
# Entries of lists

A nested table that has the names of its schema is read exactly when it is
the table that is written for the entry.  The same holds for lists of such
tables, one by one.
-/

namespace LedgerTx

open Layout (FieldSet FieldSpec Value Schema Kind Scope Fits)
open Layout.FieldSet

attribute [local simp] bind_eq_ok get?_cons

theorem scalar_eq_number {word : UInt64} {n : Nat} (h : word.toNat = n) :
    Value.scalar word = .number n := by
  rw [Value.number, ← h, Nat.toUInt64, UInt64.ofNat_toNat]

theorem toNat_of_scalar_eq_number {word : UInt64} {n : Nat} (h : Value.scalar word = .number n)
    (hn : n < 2 ^ 64) : word.toNat = n := by
  cases h
  exact Layout.toNat_toUInt64 hn

/-! ## Declared fields -/

namespace Layout.Fits

variable {values : FieldSet} {fields : List FieldSpec}

theorem vector (name scalar : String) (bias : Nat) (h : Fits values fields)
    (hmem : ⟨name, .vector (.named scalar bias)⟩ ∈ fields) :
    ∃ bytes, values.get? name = some (.vector bytes)
      ∧ values.get? scalar = some (.number (bytes.length + bias)) := by
  obtain ⟨_, hvalue, -, ⟨bytes, rfl⟩, hdeclared⟩ := h _ _ hmem
  obtain ⟨n, hn, hlength⟩ := hdeclared bytes rfl
  rw [lookup_singleton_eq_ok.mp hn, scalar_eq_number hlength]
  exact ⟨bytes, hvalue, rfl⟩

theorem table (name : String) (schema : Schema) (h : Fits values fields)
    (hmem : ⟨name, .table schema⟩ ∈ fields) :
    ∃ nested, values.get? name = some (.table nested) ∧ Schema.Exact nested schema
      ∧ Schema.Declared [values] nested schema := by
  obtain ⟨_, hvalue, hexact, ⟨nested, rfl, -⟩, hdeclared⟩ := h _ _ hmem
  exact ⟨nested, hvalue, hexact nested rfl, hdeclared nested rfl⟩

theorem tablesToEnd (name : String) (schema : Schema) (h : Fits values fields)
    (hmem : ⟨name, .tableArray schema .rest⟩ ∈ fields) :
    ∃ tables, values.get? name = some (.tableArray tables)
      ∧ ∀ table ∈ tables, Schema.Exact table schema ∧ Schema.Shaped table schema
        ∧ Schema.Declared [values] table schema := by
  obtain ⟨_, hvalue, hexact, ⟨tables, rfl, hshaped⟩, hdeclared⟩ := h _ _ hmem
  refine ⟨tables, hvalue, fun table hmem => ⟨hexact tables rfl table hmem, hshaped table hmem, ?_⟩⟩
  exact (hdeclared tables rfl).2 table hmem

theorem tables (name scalar : String) (schema : Schema) (h : Fits values fields)
    (hmem : ⟨name, .tableArray schema (.named scalar)⟩ ∈ fields) :
    ∃ tables, values.get? name = some (.tableArray tables)
      ∧ values.get? scalar = some (.number tables.length)
      ∧ ∀ table ∈ tables, Schema.Exact table schema := by
  obtain ⟨_, hvalue, hexact, ⟨tables, rfl, -⟩, hdeclared⟩ := h _ _ hmem
  obtain ⟨⟨n, hn, hlength⟩, -⟩ := hdeclared tables rfl
  rw [lookup_singleton_eq_ok.mp hn, scalar_eq_number hlength]
  exact ⟨tables, hvalue, rfl, hexact tables rfl⟩

end Layout.Fits

/-! ## Lists of entries -/

theorem number_length {α : Type} {write : α → FieldSet} {tables : List FieldSet} {list : List α}
    (h : tables = list.map write) : Value.number tables.length = .number list.length := by
  rw [h, List.length_map]

/-! ## Entries -/

instance : Coded.Narrow Change where
  code_lt a := by cases a <;> decide

instance : Coded.Narrow OfferSide where
  code_lt a := by cases a <;> decide

instance : Coded.Narrow LevyType where
  code_lt a := by cases a <;> decide

theorem Transfer.mosaicOf_eq_ok {table : FieldSet} {mosaic : Mosaic}
    (h : Schema.Exact table mosaicSchema) :
    mosaicOf table = .ok mosaic ↔ table = mosaicFields mosaic := by
  obtain ⟨id, _, rfl, -, amount, _, rfl, -, rfl⟩ := h
  obtain ⟨⟨_⟩, _⟩ := mosaic
  simp [mosaicOf, mosaicFields, bind_eq_ok, lift_eq_ok, scalar_eq_ok, get?_cons]

theorem Transfer.messageOf_eq_ok {table : FieldSet} {message : Message}
    (h : Schema.Exact table messageSchema) :
    messageOf table = .ok message ↔ table = messageFields message := by
  obtain ⟨type, _, rfl, -, payload, _, rfl, -, rfl⟩ := h
  simp only [messageOf, messageFields, bind_eq_ok, lift_eq_ok, vector_eq_ok, scalar8_eq_ok]
  simp [get?_cons]
  constructor
  · rintro ⟨bytes, rfl, number, rfl, h⟩
    split at h
    · obtain ⟨text, htext, h⟩ := bind_eq_ok.mp h
      cases h
      exact ⟨rfl, congrArg _ (Content.text_eq_ok.mp htext)⟩
    · cases h
      exact ⟨rfl, rfl⟩
    · cases h
  · rintro ⟨rfl, rfl⟩
    refine ⟨_, rfl, message.type, rfl, ?_⟩
    cases message with
    | plain text => exact bind_eq_ok.mpr ⟨text, Content.text_eq_ok.mpr rfl, rfl⟩
    | secure letter => rfl

theorem AccountFilter.changeOf_eq_ok {α : Type} {read : FieldSet → Except PayloadError α}
    {write : α → Value} {name : String} {kind : Kind} {table : FieldSet} {m : Modification α}
    (h : Schema.Exact table ⟨name, [.u8 "type", ⟨"value", kind⟩]⟩)
    (hread : ∀ a, read table = .ok a ↔ table.get? "value" = some (write a)) :
    changeOf read table = .ok m ↔ table = changeFields write m := by
  simp only [changeOf, changeFields, bind_eq_ok, Content.coded_eq_ok, hread]
  obtain ⟨type, _, rfl, -, value, _, rfl, -, rfl⟩ := h
  obtain ⟨_, _⟩ := m
  simp [get?_cons]

theorem cosignatoryOf_eq_ok {table : FieldSet} {m : Modification PublicKey}
    (h : Schema.Exact table cosignatorySchema) :
    cosignatoryOf table = .ok m ↔ m.value.Accepted
      ∧ table = [("type", .coded m.change), ("cosignatory", .block m.value.block)] := by
  obtain ⟨type, _, rfl, -, key, _, rfl, -, rfl⟩ := h
  obtain ⟨_, _⟩ := m
  simp [cosignatoryOf, bind_eq_ok, Content.coded_eq_ok, Content.keyIn_eq_ok, get?_cons,
    and_left_comm]

theorem Offer.ofFields_with_eq_ok {α : Type} {read : Except PayloadError α} {write : α → Value}
    {good : α → Prop} {table : FieldSet} {name last : String} {kind : Kind}
    (h : Schema.Exact table (schemaWith name ⟨last, kind⟩))
    (hlast : last ∉ ["mosaic_id", "mosaic_amount", "cost", "type"])
    (hread : ∀ a, read = .ok a ↔ good a ∧ table.get? last = some (write a))
    (offer : Offer) (a : α) :
    ofFields table = .ok offer ∧ read = .ok a
      ↔ good a ∧ table = offer.fields ++ [(last, write a)] := by
  rw [hread]
  obtain ⟨id, _, rfl, -, amount, _, rfl, -, cost, _, rfl, -, type, _, rfl, -, final, _, rfl, -, rfl⟩
    := h
  obtain ⟨⟨⟨_⟩, _⟩, _, _⟩ := offer
  simp only [List.mem_cons, List.not_mem_nil, or_false, not_or] at hlast
  simp [ofFields, Offer.fields, bind_eq_ok, lift_eq_ok, scalar_eq_ok, Content.coded_eq_ok,
    get?_cons, hlast]
  tauto

theorem NewOffer.ofFields_eq_ok {table : FieldSet} {offer : NewOffer} {name : String}
    (h : Schema.Exact table (Offer.schemaWith name (.u64 "duration"))) :
    ofFields table = .ok offer ↔ table = offer.fields := by
  obtain ⟨offer, duration⟩ := offer
  have hread (a : UInt64) : (liftM (table.scalar "duration") : Except PayloadError UInt64) = .ok a
      ↔ True ∧ table.get? "duration" = some (.scalar a) := by
    rw [lift_eq_ok, scalar_eq_ok, true_and]
  have hboth := Offer.ofFields_with_eq_ok h (by decide) hread offer duration
  rw [true_and] at hboth
  rw [NewOffer.fields, ← hboth]
  simp [ofFields]

theorem TakenOffer.ofFields_eq_ok {table : FieldSet} {offer : TakenOffer} {name : String}
    (h : Schema.Exact table (Offer.schemaWith name (.array "owner" 32))) :
    ofFields table = .ok offer ↔ offer.owner.Accepted ∧ table = offer.fields := by
  obtain ⟨offer, owner⟩ := offer
  have hread (a : PublicKey) : Content.keyIn table "owner" = .ok a
      ↔ a.Accepted ∧ table.get? "owner" = some (.block a.block) := Content.keyIn_eq_ok
  have hboth := Offer.ofFields_with_eq_ok h (by decide) hread offer owner
  rw [TakenOffer.fields, ← hboth]
  simp [ofFields]

theorem WithdrawnOffer.ofFields_eq_ok {table : FieldSet} {offer : WithdrawnOffer} {name : String}
    (h : Schema.Exact table ⟨name, [.u64 "mosaic_id", .u8 "type"]⟩) :
    ofFields table = .ok offer ↔ table = offer.fields := by
  obtain ⟨id, _, rfl, -, type, _, rfl, -, rfl⟩ := h
  obtain ⟨⟨_⟩, _⟩ := offer
  simp [ofFields, WithdrawnOffer.fields, bind_eq_ok, lift_eq_ok, scalar_eq_ok,
    Content.coded_eq_ok, get?_cons]

/-- The network of a levy on the name of a namespace is not kept. -/
theorem Levy.ofFields_eq_ok {table : FieldSet} {levy : Levy} (h : Schema.Exact table schema) :
    ofFields table = .ok levy ↔ ∃ network, table = levy.fields network := by
  obtain ⟨type, _, rfl, -, recipient, _, rfl, -, id, _, rfl, -, fee, _, rfl, -, rfl⟩ := h
  obtain ⟨_, _, ⟨_⟩, _⟩ := levy
  simp [ofFields, Levy.fields, bind_eq_ok, lift_eq_ok, scalar_eq_ok, Content.coded_eq_ok,
    Content.recipient_eq_ok, get?_cons]

/-- A metadata change is read from its texts when the declared size is theirs. -/
theorem MetadataChanges.changeOf_eq_ok_iff {fields : FieldSet} {m : MetadataChange} :
    changeOf fields = .ok m ↔ fields.get? "key" = some (.text m.key)
      ∧ fields.get? "value" = some (.text m.value)
      ∧ (∃ size, fields.get? "size" = some (.scalar size)
        ∧ size.toNat = headerSize + Utf8.size m.key + Utf8.size m.value)
      ∧ fields.get? "type" = some (.coded m.change) := by
  simp only [changeOf, bind_eq_ok, lift_eq_ok, vector_eq_ok, scalar_eq_ok, Value.text]
  constructor
  · rintro ⟨key, hkey, value, hvalue, size, hsize, h⟩
    by_cases hneeded : size.toNat = headerSize + key.length + value.length
    · rw [if_neg (not_not.mpr hneeded)] at h
      simp only [bind_eq_ok, Content.coded_eq_ok, Content.text_eq_ok] at h
      obtain ⟨change, hchange, text, rfl, text', rfl, heq⟩ := h
      cases heq
      rw [Utf8.length_encode, Utf8.length_encode] at hneeded
      exact ⟨hkey, hvalue, ⟨size, hsize, hneeded⟩, hchange⟩
    · rw [if_pos hneeded] at h
      cases h
  · rintro ⟨hkey, hvalue, ⟨size, hsize, hneeded⟩, hchange⟩
    refine ⟨_, hkey, _, hvalue, size, hsize, ?_⟩
    rw [if_neg (not_not.mpr (by rw [Utf8.length_encode, Utf8.length_encode, hneeded]))]
    simp only [bind_eq_ok, Content.coded_eq_ok, Content.text_eq_ok]
    exact ⟨_, hchange, _, rfl, _, rfl, rfl⟩

theorem MetadataChanges.changeOf_eq_ok {table : FieldSet} {m : MetadataChange}
    (h : Schema.Exact table changeSchema) (hfits : Layout.Fits table changeSchema.fields) :
    changeOf table = .ok m ↔ table = changeFields m := by
  obtain ⟨_, _, rfl, -, _, _, rfl, -, _, _, rfl, -, _, _, rfl, -, _, _, rfl, -, _, _, rfl, -, rfl⟩
    := h
  simp [Layout.fits_cons, changeSchema, get?_cons, Layout.FieldSpec.u8, Layout.FieldSpec.u32,
    Layout.FieldSpec.u16, Layout.FieldSpec.vector, Layout.Fits.nil, Kind.Exact, Kind.Shaped,
    Kind.Declared, Layout.lookup_singleton_eq_ok, Layout.Width.bytes] at hfits
  obtain ⟨⟨size, rfl, -⟩, ⟨type, rfl, -⟩, ⟨keySize, rfl, hkeySize⟩, ⟨valueSize, rfl, hvalueSize⟩,
    ⟨⟨key, rfl⟩, hkey⟩, ⟨value, rfl⟩, hvalue⟩ := hfits
  obtain ⟨_, ⟨⟩, hkey⟩ := hkey key rfl
  obtain ⟨_, ⟨⟩, hvalue⟩ := hvalue value rfl
  simp only [changeOf_eq_ok_iff, changeFields]
  simp [get?_cons, Value.text]
  constructor
  · rintro ⟨rfl, rfl, hsize, hchange⟩
    rw [Utf8.length_encode] at hkey hvalue
    exact ⟨scalar_eq_number hsize, hchange, scalar_eq_number hkey, scalar_eq_number hvalue, rfl, rfl⟩
  · rintro ⟨hsize, hchange, -, -, rfl, rfl⟩
    rw [Utf8.length_encode] at hkey hvalue
    refine ⟨rfl, rfl, toNat_of_scalar_eq_number hsize ?_, hchange⟩
    rw [headerSize]
    omega

end LedgerTx
