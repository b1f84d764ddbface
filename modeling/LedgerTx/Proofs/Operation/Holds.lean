import LedgerTx.Proofs.Layout.Fits
import LedgerTx.Proofs.Operation.Content

/-!
# Values that fields hold

A field holds a value in a scope when the value is of its kind and has the
length or number that the scope declares.  There is one rule for each kind of
field, and a table is held field by field; the bytes that the flat form takes
are counted on the way.
-/

namespace LedgerTx.Layout

/-- A value of a kind, with the length or number that a scope declares, that takes some bytes. -/
structure Kind.Holds (scope : Scope) (value : Value) (kind : Kind) (size : Nat) : Prop where
  shaped : Kind.Shaped value kind
  declared : Kind.Declared scope value kind
  length_eq : (Kind.raw value kind).length = size

structure FieldsHold (scope : Scope) (values : FieldSet) (fields : List FieldSpec) (size : Nat) :
    Prop where
  shaped : ShapedFields values fields
  declared : DeclaredFields scope values fields
  length_eq : (rawFields values fields).length = size

variable {scope : Scope}

theorem sum_map_const {α : Type} (list : List α) (size : Nat) :
    (list.map fun _ => size).sum = size * list.length := by
  rw [List.map_const', List.sum_replicate_nat, Nat.mul_comm]

theorem Nested.of_inline {values : FieldSet} {fields : List FieldSpec}
    (h : ∀ field ∈ fields, field.kind.inline = true) : Nested values fields := by
  intro name kind hmem value _
  have hinline := h _ hmem
  cases kind with
  | scalar width => trivial
  | array size => trivial
  | vector length | table schema | tableArray schema count => cases hinline

namespace FieldsHold

variable {values : FieldSet} {fields : List FieldSpec} {size others : Nat}

theorem nil : FieldsHold scope values [] 0 :=
  ⟨trivial, trivial, rfl⟩

theorem cons {name : String} {kind : Kind} {value : Value}
    (hvalue : values.get? name = some value) (h : Kind.Holds scope value kind size)
    (hrest : FieldsHold scope values fields others) :
    FieldsHold scope values (⟨name, kind⟩ :: fields) (size + others) := by
  refine ⟨⟨⟨value, hvalue, h.shaped⟩, hrest.shaped⟩, ⟨?_, hrest.declared⟩, ?_⟩
  · intro found hfound
    cases hvalue.symm.trans hfound
    exact h.declared
  · simp only [rawFields, hvalue, List.length_append, h.length_eq, hrest.length_eq]

theorem of_eq (h : FieldsHold scope values fields others) (hsize : others = size) :
    FieldsHold scope values fields size :=
  hsize ▸ h

/-- Values that the fields hold fit them when nested tables have nothing extra. -/
theorem fits (hnested : Nested values fields) (h : FieldsHold [values] values fields size) :
    Fits values fields :=
  Fits.of_parts hnested h.shaped h.declared

end FieldsHold

namespace Kind.Holds

theorem scalar {width : Width} {n : UInt64} (h : n.toNat < 256 ^ width.bytes) :
    Holds scope (.scalar n) (.scalar width) width.bytes :=
  ⟨⟨n, rfl, h⟩, trivial, LittleEndian.length_encode _ _⟩

theorem word (n : UInt64) : Holds scope (.scalar n) (.scalar .u64) 8 :=
  scalar n.toNat_lt

theorem number {width : Width} {n : Nat} (h : n < 256 ^ width.bytes) :
    Holds scope (.number n) (.scalar width) width.bytes := by
  have hwidth : 256 ^ width.bytes ≤ 2 ^ 64 := by cases width <;> decide
  have hword : n.toUInt64.toNat = n := toNat_toUInt64 (Nat.lt_of_lt_of_le h hwidth)
  exact scalar (hword.symm ▸ h)

theorem byte (n : UInt8) : Holds scope (.number n.toNat) (.scalar .u8) 1 :=
  number n.toNat_lt

theorem short (n : UInt16) : Holds scope (.number n.toNat) (.scalar .u16) 2 :=
  number n.toNat_lt

theorem coded {α : Type} [Coded α] {width : Width}
    (h : ∀ a ∈ (Coded.all : List α), Coded.code a < 256 ^ width.bytes) (a : α) :
    Holds scope (.coded a) (.scalar width) width.bytes :=
  number (Coded.forall_of_all h a)

theorem block {size : Nat} (b : Block size) : Holds scope (.block b) (.array size) size :=
  ⟨⟨b.bytes, rfl, b.length_bytes⟩, trivial, b.length_bytes⟩

theorem vector {bytes : Bytes} {name : String} {bias n : Nat}
    (hlookup : scope.lookup name = .ok n.toUInt64) (hn : n < 2 ^ 64)
    (hlength : n = bytes.length + bias) :
    Holds scope (.vector bytes) (.vector (.named name bias)) bytes.length := by
  refine ⟨⟨bytes, rfl⟩, ?_, rfl⟩
  rintro _ ⟨⟩
  exact ⟨_, hlookup, (toNat_toUInt64 hn).trans hlength⟩

theorem text {s : String} {name : String}
    (hlookup : scope.lookup name = .ok (Utf8.size s).toUInt64) (hn : Utf8.size s < 2 ^ 64) :
    Holds scope (.text s) (.vector (.named name 0)) (Utf8.size s) := by
  rw [← Utf8.length_encode] at hlookup hn ⊢
  exact vector hlookup hn rfl

theorem table {nested : FieldSet} {schema : Schema} {size : Nat}
    (h : FieldsHold (nested :: scope) nested schema.fields size) :
    Holds scope (.table nested) (.table schema) size := by
  obtain ⟨name, fields⟩ := schema
  refine ⟨⟨nested, rfl, h.shaped⟩, ?_, h.length_eq⟩
  rintro _ ⟨⟩
  exact h.declared

section Tables

variable {α : Type} {write : α → FieldSet} {size : α → Nat} {schema : Schema} {list : List α}

theorem length_tables
    (h : ∀ a ∈ list, FieldsHold (write a :: scope) (write a) schema.fields (size a)) :
    ((list.map write).flatMap fun nested => Schema.raw nested schema).length
      = (list.map size).sum := by
  obtain ⟨_, fields⟩ := schema
  have heach : list.map (fun a => (rawFields (write a) fields).length) = list.map size :=
    List.map_congr_left fun a ha => (h a ha).length_eq
  rw [List.length_flatMap, List.map_map]
  exact congrArg List.sum heach

theorem tables {name : String} (hlookup : scope.lookup name = .ok list.length.toUInt64)
    (hlength : list.length < 2 ^ 64)
    (h : ∀ a ∈ list, FieldsHold (write a :: scope) (write a) schema.fields (size a)) :
    Holds scope (.tableArray (list.map write)) (.tableArray schema (.named name))
      (list.map size).sum := by
  obtain ⟨_, fields⟩ := schema
  refine ⟨⟨_, rfl, List.forall_mem_map.mpr fun a ha => (h a ha).shaped⟩, ?_, length_tables h⟩
  rintro _ ⟨⟩
  refine ⟨⟨_, hlookup, (toNat_toUInt64 hlength).trans (List.length_map _).symm⟩, ?_⟩
  exact List.forall_mem_map.mpr fun a ha => (h a ha).declared

theorem tablesToEnd
    (h : ∀ a ∈ list, FieldsHold (write a :: scope) (write a) schema.fields (size a)) :
    Holds scope (.tableArray (list.map write)) (.tableArray schema .rest)
      (list.map size).sum := by
  obtain ⟨_, fields⟩ := schema
  refine ⟨⟨_, rfl, List.forall_mem_map.mpr fun a ha => (h a ha).shaped⟩, ?_, length_tables h⟩
  rintro _ ⟨⟩
  exact ⟨trivial, List.forall_mem_map.mpr fun a ha => (h a ha).declared⟩

end Tables

end Kind.Holds

end LedgerTx.Layout
