import LedgerTx.Proofs.Layout.Flat

/-!
# What writing an offset table takes

A table is written field by field.  Each field has an inline piece, which is
its bytes or a slot, and the content that its slot leads to.  These facts say
once for each kind of field when it is written and what is written for it;
what is said about written tables goes through them.
-/

namespace LedgerTx.Layout

/-! ## Slots -/

@[simp] theorem length_slotBytes (n : Nat) : (slotBytes n).length = 4 :=
  LittleEndian.length_encode 4 n

theorem length_flatMap_slotBytes (slots : List Nat) :
    (slots.flatMap slotBytes).length = 4 * slots.length := by
  induction slots with
  | nil => rfl
  | cons slot rest ih =>
      rw [List.flatMap_cons, List.length_append, ih, length_slotBytes, List.length_cons]
      omega

theorem slotNumber_eq_ok {n slot : Nat} : slotNumber n = .ok slot ↔ n < slotLimit ∧ slot = n := by
  unfold slotNumber
  split
  · rename_i hfits
    simp [hfits, eq_comm]
  · rename_i hwide
    simp [hwide]

theorem slotNumber_of_lt {n : Nat} (h : n < slotLimit) : slotNumber n = .ok n :=
  if_pos h

theorem exists_slotNumber {n : Nat} {p : Nat → Prop} :
    (∃ slot, slotNumber n = .ok slot ∧ p slot) ↔ n < slotLimit ∧ p n := by
  simp only [slotNumber_eq_ok, and_assoc, exists_and_left, exists_eq_left]

theorem padding_le (position : Nat) : padding position ≤ 3 := by
  rw [padding, alignment]
  omega

/-! ## Inline pieces -/

section

variable {field : String} {kind : Kind} {value : Value} {values : FieldSet} {cell : Cell}

theorem inlineCell_scalar {width : Width} : inlineCell field (.scalar width) value = .ok cell
    ↔ ∃ n, value = .scalar n ∧ n.toNat < 256 ^ width.bytes
      ∧ cell = .ready (LittleEndian.encode width.bytes n.toNat) := by
  cases value with
  | scalar n =>
      simp only [inlineCell, map_eq_ok, writeScalar_eq_ok, Value.scalar.injEq, exists_eq_left']
      constructor
      · rintro ⟨_, ⟨hfits, rfl⟩, rfl⟩
        exact ⟨hfits, rfl⟩
      · rintro ⟨hfits, rfl⟩
        exact ⟨_, ⟨hfits, rfl⟩, rfl⟩
  | _ => simp [inlineCell]

theorem inlineCell_array {size : Nat} : inlineCell field (.array size) value = .ok cell
    ↔ ∃ bytes, value = .array bytes ∧ bytes.length = size ∧ cell = .ready bytes := by
  cases value with
  | array bytes =>
      simp only [inlineCell, map_eq_ok, writeArray_eq_ok, Value.array.injEq, exists_eq_left']
      constructor
      · rintro ⟨_, ⟨hsize, rfl⟩, rfl⟩
        exact ⟨hsize, rfl⟩
      · rintro ⟨hsize, rfl⟩
        exact ⟨_, ⟨hsize, rfl⟩, rfl⟩
  | _ => simp [inlineCell]

theorem inlineCells_cons {name : String} {rest : List FieldSpec} {cells : List Cell} :
    inlineCells values (⟨name, kind⟩ :: rest) = .ok cells
      ↔ ∃ value, values.get? name = some value
        ∧ ∃ cell, inlineCell name kind value = .ok cell
          ∧ ∃ others, inlineCells values rest = .ok others ∧ cells = cell :: others := by
  simp only [inlineCells, bind_eq_ok, FieldSet.get_eq_ok, Except.ok.injEq, @eq_comm _ _ cells]

/-! ## Contents -/

variable {write : Nat → FieldSet → Except Error Bytes} {origin position : Nat} {tail : Tail}

/-- Tables are written at aligned positions, each at a distance that its slot can hold. -/
theorem writeTables_cons {table : FieldSet} {rest : List FieldSet} :
    writeTables write origin position (table :: rest) = .ok tail
      ↔ ∃ content, write (position + padding position) table = .ok content
        ∧ position + padding position - origin < slotLimit
        ∧ ∃ later, writeTables write origin
            (position + padding position + content.length) rest = .ok later
          ∧ tail = ⟨(position + padding position - origin) :: later.slots,
            List.replicate (padding position) 0 ++ content ++ later.bytes⟩ := by
  simp only [writeTables, bind_eq_ok, exists_slotNumber, Except.ok.injEq, @eq_comm _ _ tail]

theorem Schema.write_eq_ok {name : String} {fields : List FieldSpec} {start : Nat}
    {content : Bytes} :
    Schema.write start values ⟨name, fields⟩ = .ok content
      ↔ ∃ cells tail, inlineCells values fields = .ok cells
        ∧ writeTails start (start + inlineSize fields) values fields = .ok tail
        ∧ content = fillCells cells tail.slots ++ tail.bytes := by
  simp only [Schema.write, bind_eq_ok, Except.ok.injEq, @eq_comm _ _ content]
  exact exists_congr fun cells => exists_and_left.symm

theorem writeTails_cons {name : String} {rest : List FieldSpec} :
    writeTails origin position values (⟨name, kind⟩ :: rest) = .ok tail
      ↔ ∃ value, values.get? name = some value
        ∧ ∃ head, Kind.writeTail origin position name value kind = .ok head
          ∧ ∃ later, writeTails origin (position + head.bytes.length) values rest = .ok later
            ∧ tail = ⟨head.slots ++ later.slots, head.bytes ++ later.bytes⟩ := by
  simp only [writeTails, bind_eq_ok, FieldSet.get_eq_ok, Except.ok.injEq, @eq_comm _ _ tail]

theorem Kind.writeTail_vector {length : Length} :
    Kind.writeTail origin position field value (.vector length) = .ok tail
      ↔ ∃ bytes, value = .vector bytes ∧ bytes.length < slotLimit
        ∧ position + padding position < slotLimit
        ∧ tail = ⟨[position + padding position],
          List.replicate (padding position) 0 ++ slotBytes bytes.length ++ bytes⟩ := by
  cases value with
  | vector bytes =>
      simp only [Kind.writeTail, bind_eq_ok, exists_slotNumber, Except.ok.injEq, @eq_comm _ _ tail,
        Value.vector.injEq, exists_eq_left']
  | _ => simp [Kind.writeTail]

theorem Kind.writeTail_table {schema : Schema} :
    Kind.writeTail origin position field value (.table schema) = .ok tail
      ↔ ∃ nested, value = .table nested
        ∧ ∃ content, Schema.write (position + padding position) nested schema = .ok content
          ∧ position + padding position - origin < slotLimit
          ∧ tail = ⟨[position + padding position - origin],
            List.replicate (padding position) 0 ++ content⟩ := by
  cases value with
  | table nested =>
      simp only [Kind.writeTail, bind_eq_ok, exists_slotNumber, Except.ok.injEq, @eq_comm _ _ tail,
        Value.table.injEq, exists_eq_left']
  | _ => simp [Kind.writeTail]

/-- An array of tables is their number, a slot for each of them, and the tables. -/
theorem Kind.writeTail_tableArray {schema : Schema} {count : Count} :
    Kind.writeTail origin position field value (.tableArray schema count) = .ok tail
      ↔ ∃ tables, value = .tableArray tables ∧ tables.length < slotLimit
        ∧ ∃ written, writeTables (fun position nested => Schema.write position nested schema) origin
            (position + padding position + 4 + 4 * tables.length) tables = .ok written
          ∧ position + padding position - origin < slotLimit
          ∧ tail = ⟨[position + padding position - origin],
            List.replicate (padding position) 0 ++ slotBytes tables.length
              ++ written.slots.flatMap slotBytes ++ written.bytes⟩ := by
  cases value with
  | tableArray tables =>
      simp only [Kind.writeTail, bind_eq_ok, exists_slotNumber, Except.ok.injEq, @eq_comm _ _ tail,
        Value.tableArray.injEq, exists_eq_left']
  | _ => simp [Kind.writeTail]

/-! ## Sizes -/

theorem length_slots_writeTables {tables : List FieldSet}
    (h : writeTables write origin position tables = .ok tail) :
    tail.slots.length = tables.length := by
  induction tables generalizing position tail with
  | nil =>
      cases h
      rfl
  | cons table rest ih =>
      obtain ⟨content, -, -, later, hlater, rfl⟩ := writeTables_cons.mp h
      rw [List.length_cons, ih hlater, List.length_cons]

theorem ready_or_slot (h : inlineCell field kind value = .ok cell) :
    (∃ bytes, cell = .ready bytes ∧ bytes.length = kind.inlineSize)
      ∨ (cell = .slot ∧ kind.inlineSize = 4) := by
  cases kind with
  | scalar width =>
      obtain ⟨n, -, -, rfl⟩ := inlineCell_scalar.mp h
      exact .inl ⟨_, rfl, LittleEndian.length_encode _ _⟩
  | array size =>
      obtain ⟨bytes, -, rfl, rfl⟩ := inlineCell_array.mp h
      exact .inl ⟨bytes, rfl, rfl⟩
  | vector _ | table _ | tableArray _ _ =>
      cases value <;> cases h
      exact .inr ⟨rfl, rfl⟩

theorem writeTail_of_ready {bytes : Bytes} (h : inlineCell field kind value = .ok (.ready bytes)) :
    Kind.writeTail origin position field value kind = .ok ⟨[], []⟩ := by
  cases kind <;> cases value <;> first | rfl | cases h

theorem slots_of_slot (hcell : inlineCell field kind value = .ok .slot)
    (htail : Kind.writeTail origin position field value kind = .ok tail) :
    ∃ slot, tail.slots = [slot] := by
  cases kind with
  | scalar width =>
      obtain ⟨_, -, -, h⟩ := inlineCell_scalar.mp hcell
      cases h
  | array size =>
      obtain ⟨_, -, -, h⟩ := inlineCell_array.mp hcell
      cases h
  | vector length =>
      obtain ⟨bytes, -, -, -, rfl⟩ := Kind.writeTail_vector.mp htail
      exact ⟨_, rfl⟩
  | table schema =>
      obtain ⟨nested, -, content, -, -, rfl⟩ := Kind.writeTail_table.mp htail
      exact ⟨_, rfl⟩
  | tableArray schema count =>
      obtain ⟨tables, -, -, written, -, -, rfl⟩ := Kind.writeTail_tableArray.mp htail
      exact ⟨_, rfl⟩

theorem fillCells_cons (hcell : inlineCell field kind value = .ok cell)
    (htail : Kind.writeTail origin position field value kind = .ok tail) (cells : List Cell)
    (slots : List Nat) :
    fillCells (cell :: cells) (tail.slots ++ slots)
        = fillCells [cell] tail.slots ++ fillCells cells slots
      ∧ (fillCells [cell] tail.slots).length = kind.inlineSize := by
  rcases ready_or_slot hcell with ⟨bytes, rfl, hlength⟩ | ⟨rfl, hsize⟩
  · cases (writeTail_of_ready hcell).symm.trans htail
    simp [fillCells, hlength]
  · obtain ⟨slot, hslots⟩ := slots_of_slot hcell htail
    simp [fillCells, hslots, hsize]

theorem length_fillCells {fields : List FieldSpec} {cells : List Cell} (slots : List Nat)
    (h : inlineCells values fields = .ok cells) :
    (fillCells cells slots).length = inlineSize fields := by
  induction fields generalizing cells slots with
  | nil =>
      cases h
      rfl
  | cons field rest ih =>
      obtain ⟨value, -, cell, hcell, others, hothers, rfl⟩ := inlineCells_cons.mp h
      rw [inlineSize]
      rcases ready_or_slot hcell with ⟨bytes, rfl, hlength⟩ | ⟨rfl, hsize⟩
      · rw [fillCells, List.length_append, hlength, ih slots hothers]
      · cases slots with
        | nil => rw [fillCells, List.length_append, length_slotBytes, hsize, ih [] hothers]
        | cons slot slots =>
            rw [fillCells, List.length_append, length_slotBytes, hsize, ih slots hothers]

theorem Schema.size_le_write {start : Nat} {schema : Schema} {content : Bytes}
    (h : Schema.write start values schema = .ok content) : schema.size ≤ content.length := by
  obtain ⟨name, fields⟩ := schema
  obtain ⟨cells, tail, hcells, -, rfl⟩ := Schema.write_eq_ok.mp h
  rw [List.length_append, length_fillCells tail.slots hcells]
  exact Nat.le_add_right _ _

end

end LedgerTx.Layout
