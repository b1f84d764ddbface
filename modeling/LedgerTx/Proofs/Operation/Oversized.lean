import LedgerTx.Proofs.Layout.Refusal
import LedgerTx.Proofs.Operation.Sized
import Mathlib.Algebra.Order.BigOperators.Group.List
import Mathlib.Algebra.Order.Ring.Nat

/-!
# Operations that are too long for their counts

Lists, texts and byte strings of any length are counted in fields of one or
two bytes.  The counts are written in layout order, so that the first one
that does not fit its field is the one that is refused; of several changes
of metadata it is the first one in the first change that has one.
-/

namespace LedgerTx

namespace Layout

/-! ## Counts in fields -/

structure Measure where
  field : String
  width : Width
  size : Nat

namespace Measure

def spec (m : Measure) : FieldSpec := ⟨m.field, .scalar m.width⟩

/-- Whether a measure does not fit its field. -/
def TooLarge (m : Measure) : Prop := 256 ^ m.width.bytes ≤ m.size

instance (m : Measure) : Decidable m.TooLarge := inferInstanceAs (Decidable (_ ≤ _))

def refusal (m : Measure) : Error := .range m.field m.size.toUInt64

def refusal? (measures : List Measure) : Option Error :=
  (measures.find? fun m => m.TooLarge).map refusal

theorem refusal?_cons (m : Measure) (measures : List Measure) :
    refusal? (m :: measures) = if m.TooLarge then some m.refusal else refusal? measures := by
  rw [refusal?, List.find?_cons]
  by_cases h : m.TooLarge <;> simp [h, refusal?]

theorem refusal?_eq_none {measures : List Measure} :
    refusal? measures = none ↔ ∀ m ∈ measures, m.size < 256 ^ m.width.bytes := by
  simp only [refusal?, Option.map_eq_none_iff, List.find?_eq_none, decide_eq_true_eq]
  simp only [TooLarge, Nat.not_le]

theorem refusal?_flatMap {α : Type} (list : List α) (measures : α → List Measure) :
    refusal? (list.flatMap measures) = list.findSome? fun a => refusal? (measures a) := by
  rw [refusal?, List.find?_flatMap, List.map_findSome?]
  rfl

end Measure

/-- Fields that sit inline and hold their values, but for those of some measures, in their order. -/
inductive Counted (values : FieldSet) : List FieldSpec → List Measure → Prop where
  | done (fields : List FieldSpec) : Counted values fields []
  | held {name : String} {kind : Kind} {value : Value} {size : Nat} {fields : List FieldSpec}
      {measures : List Measure} (hvalue : values.get? name = some value)
      (hheld : Kind.Holds [] value kind size) (rest : Counted values fields measures) :
      Counted values (⟨name, kind⟩ :: fields) measures
  | count {name : String} {width : Width} {n : Nat} {fields : List FieldSpec}
      {measures : List Measure} (hvalue : values.get? name = some (.number n))
      (rest : Counted values fields measures) :
      Counted values (⟨name, .scalar width⟩ :: fields) (⟨name, width, n⟩ :: measures)

namespace Counted

variable {values : FieldSet} {fields : List FieldSpec} {measures : List Measure}

theorem specs_sublist (h : Counted values fields measures) :
    (measures.map Measure.spec).Sublist fields := by
  induction h with
  | done fields => exact List.nil_sublist fields
  | held _ _ _ ih => exact ih.cons _
  | count _ _ ih => exact ih.cons_cons _

theorem inlineCells_eq_error (h : Counted values fields measures)
    (hsize : ∀ m ∈ measures, m.size < 2 ^ 64) {e : Error}
    (he : Measure.refusal? measures = some e) : inlineCells values fields = .error e := by
  induction h with
  | done fields => cases he
  | @held name kind value size fields measures hvalue hheld _ ih =>
      obtain ⟨cell, hcell⟩ := inlineCell_of_shaped name hheld.shaped
      rw [inlineCells, FieldSet.get_eq_ok.mpr hvalue]
      simp only [bind, Except.bind, hcell, ih hsize he]
  | @count name width n fields measures hvalue _ ih =>
      obtain ⟨hhead, hrest⟩ := List.forall_mem_cons.mp hsize
      have hword : n.toUInt64.toNat = n := toNat_toUInt64 hhead
      rw [Measure.refusal?_cons] at he
      rw [inlineCells, FieldSet.get_eq_ok.mpr hvalue]
      split at he
      · rename_i hlarge
        cases he
        have hwide : ¬n < 256 ^ width.bytes := Nat.not_lt.mpr hlarge
        simp only [bind, Except.bind, inlineCell, Value.number, writeScalar, hword, if_neg hwide,
          Except.map]
        rfl
      · rename_i hsmall
        have hfits : n < 256 ^ width.bytes := Nat.not_le.mp hsmall
        simp only [bind, Except.bind, inlineCell, Value.number, writeScalar, hword, if_pos hfits,
          Except.map, ih hrest he]

end Counted

end Layout

open Layout (FieldSet FieldSpec Value Schema Kind Width FieldsHold Measure Counted contents
  slotLimit)

/-! ## Measures of operations -/

def MetadataChange.measures (change : MetadataChange) : List Measure :=
  [⟨"key_size", .u8, Utf8.size change.key⟩, ⟨"value_size", .u16, Utf8.size change.value⟩]

def Operation.measures : Operation → List Measure
  | transfer operation => [⟨"message_size", .u16, operation.message.payload.length + 1⟩,
      ⟨"mosaics_count", .u8, operation.mosaics.length⟩]
  | registration operation => [⟨"name_size", .u8, Utf8.size operation.name⟩]
  | accountFilter operation => [⟨"modifications_count", .u8, operation.changes.length⟩]
  | multisig operation => [⟨"modifications_count", .u8, operation.changes.length⟩]
  | secretProof operation => [⟨"proof_size", .u16, operation.proof.length⟩]
  | metadataChanges operation => operation.changes.flatMap MetadataChange.measures
  | metadataEntry operation => [⟨"value_size", .u16, operation.value.length⟩]
  | newOffers offers => [⟨"offers_count", .u8, offers.length⟩]
  | takenOffers offers => [⟨"offers_count", .u8, offers.length⟩]
  | withdrawnOffers offers => [⟨"offers_count", .u8, offers.length⟩]
  | contractChange operation => [⟨"customers_count", .u8, operation.customers.length⟩,
      ⟨"executors_count", .u8, operation.executors.length⟩,
      ⟨"verifiers_count", .u8, operation.verifiers.length⟩]
  | networkConfig operation => [⟨"config_size", .u16, Utf8.size operation.config⟩,
      ⟨"entity_versions_size", .u16, Utf8.size operation.entityVersions⟩]
  | _ => []

theorem MetadataChange.refusal?_eq_none {change : MetadataChange} :
    Measure.refusal? change.measures = none
      ↔ Utf8.size change.key < 2 ^ 8 ∧ Utf8.size change.value < 2 ^ 16 := by
  simp [Measure.refusal?_eq_none, measures, Width.bytes]

theorem Operation.sized_iff {operation : Operation} :
    operation.Sized ↔ Measure.refusal? operation.measures = none := by
  cases operation with
  | metadataChanges operation =>
      rw [measures, Measure.refusal?_flatMap, List.findSome?_eq_none_iff]
      exact forall₂_congr fun change _ => MetadataChange.refusal?_eq_none.symm
  | transfer operation =>
      simp [Measure.refusal?_eq_none, measures, Width.bytes, Sized, and_comm]
  | _ => simp [Measure.refusal?_eq_none, measures, Width.bytes, Sized]

theorem MetadataChange.volume_le_sum {change : MetadataChange} {changes : List MetadataChange}
    (h : change ∈ changes) : change.volume ≤ (changes.map volume).sum :=
  List.single_le_sum (fun _ _ => Nat.zero_le _) _ (List.mem_map_of_mem h)

theorem MetadataChange.size_le_volume (change : MetadataChange) :
    ∀ m ∈ change.measures, m.size ≤ change.volume := by
  simp only [measures, volume, List.forall_mem_cons, List.not_mem_nil, false_implies, implies_true,
    and_true]
  omega

/-- What is counted in an operation is part of its entries and bytes, but for a message type. -/
theorem Operation.measure_le_volume (operation : Operation) :
    ∀ m ∈ operation.measures, m.size ≤ 1 + operation.volume := by
  cases operation with
  | metadataChanges operation =>
      intro m hmem
      obtain ⟨change, hchange, hmem⟩ := List.mem_flatMap.mp hmem
      have hsize := change.size_le_volume m hmem
      have hpart := MetadataChange.volume_le_sum hchange
      rw [volume]
      omega
  | _ =>
      simp only [measures, volume, List.forall_mem_cons, List.not_mem_nil, false_implies,
        implies_true, and_true] <;> omega

/-! ## Counts of each operation -/

theorem Transfer.counted (transfer : Transfer) (network : Network) :
    Counted (transfer.fields network) schema.fields (Operation.transfer transfer).measures :=
  .held rfl (.block _) <| .count rfl <| .count rfl <| .done _

theorem Registration.counted (registration : Registration) :
    Counted registration.fields schema.fields (Operation.registration registration).measures :=
  .held rfl (.coded (by decide) _) <| .held rfl (.word _) <| .held rfl (.word _) <| .count rfl <|
    .done _

theorem AccountFilter.counted (filter : AccountFilter) :
    Counted filter.fields filter.kind.schema.fields (Operation.accountFilter filter).measures := by
  obtain ⟨type, list | list | list⟩ := filter
  all_goals exact .held rfl (.coded (by decide) _) <| .count rfl <| .done _

theorem Multisig.counted (multisig : Multisig) :
    Counted multisig.fields schema.fields (Operation.multisig multisig).measures :=
  .held rfl (.byte _) <| .held rfl (.byte _) <| .count rfl <| .done _

theorem SecretProof.counted (proof : SecretProof) (network : Network) :
    Counted (proof.fields network) schema.fields (Operation.secretProof proof).measures :=
  .held rfl (.coded (by decide) _) <| .held rfl (.block _) <| .held rfl (.block _) <|
    .count rfl <| .done _

theorem MetadataEntry.counted (entry : MetadataEntry) :
    Counted entry.fields entry.kind.schema.fields (Operation.metadataEntry entry).measures := by
  obtain ⟨_, _, _ | id | id, _, _⟩ := entry
  · exact .held rfl (.block _) <| .held rfl (.word _) <| .held rfl (.short _) <| .count rfl <|
      .done _
  all_goals
    exact .held rfl (.block _) <| .held rfl (.word _) <| .held rfl (.word id.value) <|
      .held rfl (.short _) <| .count rfl <| .done _

theorem Offer.counted_list {α : Type} (write : α → FieldSet) (offers : List α) (name : String)
    (offer : Schema) :
    Counted (listFields write offers) (listSchema name offer).fields
      [⟨"offers_count", .u8, offers.length⟩] :=
  .count rfl <| .done _

theorem ContractChange.counted (contract : ContractChange) :
    Counted contract.fields schema.fields (Operation.contractChange contract).measures :=
  .held rfl (.word _) <| .held rfl (.block _) <| .count rfl <| .count rfl <| .count rfl <| .done _

theorem NetworkConfig.counted (settings : NetworkConfig) :
    Counted settings.fields schema.fields (Operation.networkConfig settings).measures :=
  .held rfl (.word _) <| .count rfl <| .count rfl <| .done _

theorem Operation.counted {operation : Operation} (network : Network)
    (h : ∀ metadata, operation ≠ .metadataChanges metadata) :
    Counted (operation.fields network) operation.kind.schema.fields operation.measures := by
  cases operation with
  | transfer x => exact x.counted network
  | registration x => exact x.counted
  | accountFilter x => exact x.counted
  | multisig x => exact x.counted
  | secretProof x => exact x.counted network
  | metadataChanges x => exact absurd rfl (h x)
  | metadataEntry x => exact x.counted
  | newOffers offers => exact Offer.counted_list _ offers _ _
  | takenOffers offers => exact Offer.counted_list _ offers _ _
  | withdrawnOffers offers => exact Offer.counted_list _ offers _ _
  | contractChange x => exact x.counted
  | networkConfig x => exact x.counted
  | _ => exact .done _

/-- What is counted in an operation is counted in fields of its layout, in their order. -/
theorem Operation.specs_sublist {operation : Operation}
    (h : ∀ metadata, operation ≠ .metadataChanges metadata) :
    (operation.measures.map Measure.spec).Sublist operation.kind.schema.fields :=
  (counted .mainNet h).specs_sublist

/-! ## Changes of metadata -/

theorem MetadataChange.specs_sublist (change : MetadataChange) :
    (change.measures.map Measure.spec).Sublist MetadataChanges.changeSchema.fields :=
  .cons _ <| .cons _ <| .cons_cons _ <| .cons_cons _ <| List.nil_sublist _

theorem MetadataChange.counted {change : MetadataChange} (h : change.volume ≤ 2 ^ 24) :
    Counted (MetadataChanges.changeFields change) MetadataChanges.changeSchema.fields
      change.measures := by
  have hsize : MetadataChanges.headerSize + Utf8.size change.key + Utf8.size change.value
      < 256 ^ Width.u32.bytes := by
    simp only [volume] at h
    simp only [MetadataChanges.headerSize, Width.bytes]
    omega
  exact .held rfl (.number hsize) <| .held rfl (.coded (by decide) _) <| .count rfl <|
    .count rfl <| .done _

theorem MetadataChange.span_fields (change : MetadataChange) :
    Schema.span (MetadataChanges.changeFields change) MetadataChanges.changeSchema
      = 30 + Utf8.size change.key + Utf8.size change.value := by
  have hspan : Schema.span (MetadataChanges.changeFields change) MetadataChanges.changeSchema
      = 16 + (0 + (0 + (0 + (0 + ((7 + (Utf8.encode change.key).length)
        + ((7 + (Utf8.encode change.value).length) + 0)))))) := rfl
  rw [hspan, Utf8.length_encode, Utf8.length_encode]
  omega

theorem MetadataChange.sum_span_le (changes : List MetadataChange) :
    ((changes.map MetadataChanges.changeFields).map fun nested =>
        7 + Schema.span nested MetadataChanges.changeSchema).sum
      ≤ 37 * (changes.map volume).sum := by
  induction changes with
  | nil => exact Nat.zero_le _
  | cons change rest ih =>
      simp only [List.map_cons, List.sum_cons, span_fields, volume]
      omega

theorem MetadataChanges.contents_eq_error_target {metadata : MetadataChanges} {name : String}
    {kind : Kind} {size : Nat} (hinline : kind.inline = true)
    (htarget : Kind.Holds [] (targetValue metadata.target) kind size)
    (h : (Operation.metadataChanges metadata).volume ≤ 2 ^ 24) {position : Nat}
    (hposition : position ≤ 2 ^ 10) {e : Layout.Error}
    (he : Measure.refusal? (Operation.metadataChanges metadata).measures = some e) :
    contents position metadata.fields (schemaWith name ⟨"target", kind⟩).fields = .error e := by
  simp only [Operation.volume] at h
  rw [Operation.measures, Measure.refusal?_flatMap] at he
  have hfront : FieldsHold [] metadata.fields [.u8 "metadata_type", ⟨"target", kind⟩] _ :=
    .cons rfl (.coded (by decide) _) <| .cons rfl htarget .nil
  refine ((Layout.contents_sameRefusal ?_ hfront.shaped position _) e).mpr
    (Layout.contents_eq_error rfl ?_ ?_ ?_ he)
  · intro field hfield
    rcases List.mem_cons.mp hfield with rfl | hfield
    · rfl
    · obtain rfl := List.mem_singleton.mp hfield
      exact hinline
  · intro change hmem cause hcause
    have hpart := Nat.le_trans (MetadataChange.volume_le_sum hmem) h
    refine (MetadataChange.counted hpart).inlineCells_eq_error (fun m hm => ?_) hcause
    have hsize := change.size_le_volume m hm
    omega
  · intro change _ hnone
    obtain ⟨hkey, hvalue⟩ := MetadataChange.refusal?_eq_none.mp hnone
    exact (@MetadataChange.holds [] change hkey hvalue).shaped
  · have hspan := MetadataChange.sum_span_le metadata.changes
    rw [Kind.span, slotLimit]
    omega

theorem MetadataChanges.contents_eq_error {metadata : MetadataChanges}
    (h : (Operation.metadataChanges metadata).volume ≤ 2 ^ 24) {position : Nat}
    (hposition : position ≤ 2 ^ 10) {e : Layout.Error}
    (he : Measure.refusal? (Operation.metadataChanges metadata).measures = some e) :
    contents position metadata.fields metadata.kind.schema.fields = .error e := by
  obtain ⟨address | mosaic | id, changes⟩ := metadata
  · exact contents_eq_error_target rfl (.block address.toBlock) h hposition he
  · exact contents_eq_error_target rfl (.word mosaic.value) h hposition he
  · exact contents_eq_error_target rfl (.word id.value) h hposition he

/-! ## Operations -/

theorem Operation.contents_eq_error {operation : Operation} (h : operation.volume ≤ 2 ^ 24)
    (network : Network) {position : Nat} (hposition : position ≤ 2 ^ 10) {e : Layout.Error}
    (he : Measure.refusal? operation.measures = some e) :
    contents position (operation.fields network) operation.kind.schema.fields = .error e := by
  by_cases hmetadata : ∃ metadata, operation = .metadataChanges metadata
  · obtain ⟨metadata, rfl⟩ := hmetadata
    exact MetadataChanges.contents_eq_error h hposition he
  · have hcounted := counted network (not_exists.mp hmetadata)
    have hcells := hcounted.inlineCells_eq_error (fun m hm => by
      have hsize := operation.measure_le_volume m hm
      omega) he
    rw [contents, hcells]
    rfl

end LedgerTx
