import LedgerTx.Proofs.Layout.Write

/-!
# Offset tables

An offset table that was written reads back as the values under the names of
its schema, up to its last byte.  The invariant is that the buffer holds the
inline bytes of the fields still to be read at the cursor and their contents
behind all inline bytes; reading a field moves both on.
-/

namespace LedgerTx.Layout

/-! ## Bytes at a place of a buffer -/

def Holds (buffer : Bytes) (position : Nat) (bytes : Bytes) : Prop :=
  ∃ front back, buffer = front ++ bytes ++ back ∧ front.length = position

namespace Holds

variable {buffer bytes more : Bytes} {position : Nat}

theorem self (buffer : Bytes) : Holds buffer 0 buffer :=
  ⟨[], [], by simp, rfl⟩

theorem left (h : Holds buffer position (bytes ++ more)) : Holds buffer position bytes := by
  obtain ⟨front, back, rfl, hfront⟩ := h
  exact ⟨front, more ++ back, by simp, hfront⟩

theorem right (h : Holds buffer position (bytes ++ more)) :
    Holds buffer (position + bytes.length) more := by
  obtain ⟨front, back, rfl, rfl⟩ := h
  exact ⟨front ++ bytes, back, by simp, by simp⟩

theorem le (h : Holds buffer position bytes) : position + bytes.length ≤ buffer.length := by
  obtain ⟨front, back, rfl, rfl⟩ := h
  simp only [List.length_append]
  omega

theorem bytesAt_eq (h : Holds buffer position bytes) (hlimit : buffer.length < positionLimit) :
    bytesAt buffer position bytes.length = .ok ⟨bytes, position + bytes.length⟩ := by
  have hle := h.le
  rw [bytesAt, if_neg (by omega), if_neg (by omega)]
  obtain ⟨front, back, rfl, rfl⟩ := h
  simp

theorem numberAt_eq {width n : Nat} (h : Holds buffer position (LittleEndian.encode width n))
    (hlimit : buffer.length < positionLimit) (hfits : n < 256 ^ width) :
    numberAt buffer position width = .ok ⟨n, position + width⟩ := by
  have hbytes := h.bytesAt_eq hlimit
  rw [LittleEndian.length_encode] at hbytes
  rw [numberAt, hbytes]
  simp only [bind, Except.bind, LittleEndian.decode_encode, Nat.mod_eq_of_lt hfits]

theorem follow_eq {n floor : Nat} (h : Holds buffer position (slotBytes n)) (field : String)
    (base : Nat) (hlimit : buffer.length < positionLimit) (hfits : n < slotLimit)
    (hfloor : floor ≤ base + n) (hinside : base + n < buffer.length) :
    follow buffer field position base floor = .ok ⟨base + n, position + 4⟩ := by
  rw [follow, h.numberAt_eq hlimit hfits]
  simp only [bind, Except.bind]
  rw [if_neg (by omega), if_neg (by omega)]

theorem follow_distance {origin floor target : Nat}
    (h : Holds buffer position (slotBytes (target - origin))) (field : String)
    (hlimit : buffer.length < positionLimit) (hfits : target - origin < slotLimit)
    (horigin : origin ≤ target) (hfloor : floor ≤ target) (hinside : target < buffer.length) :
    follow buffer field position origin floor = .ok ⟨target, position + 4⟩ := by
  have htarget : origin + (target - origin) = target := Nat.add_sub_of_le horigin
  have hfollow := h.follow_eq field origin hlimit hfits (htarget.symm ▸ hfloor)
    (htarget.symm ▸ hinside)
  rwa [htarget] at hfollow

end Holds

/-! ## Reading back -/

theorem readTables_write {write : Nat → FieldSet → Except Error Bytes}
    {read : Nat → Except Error (Seen FieldSet)} {form : FieldSet → FieldSet} {buffer : Bytes}
    (field : String) {origin floor : Nat}
    (hread : ∀ start table content, write start table = .ok content →
      Holds buffer start content →
      0 < content.length ∧ read start = .ok ⟨form table, start + content.length⟩)
    (hlimit : buffer.length < positionLimit) {tables : List FieldSet} {slot position : Nat}
    {tail : Tail} (h : writeTables write origin position tables = .ok tail)
    (hslots : Holds buffer slot (tail.slots.flatMap slotBytes))
    (hcontent : Holds buffer position tail.bytes) (horigin : origin ≤ position)
    (hfloor : floor ≤ position) (hbefore : slot + 4 * tables.length ≤ position) :
    ∃ extent, readTables read buffer field origin floor slot tables.length
        = .ok ⟨tables.map form, extent⟩
      ∧ max position extent = position + tail.bytes.length := by
  induction tables generalizing slot position tail with
  | nil =>
      cases h
      exact ⟨0, rfl, by simp⟩
  | cons table rest ih =>
      obtain ⟨content, hwrite, hfits, later, hlater, rfl⟩ := writeTables_cons.mp h
      rw [List.flatMap_cons] at hslots
      rw [List.append_assoc] at hcontent
      have hplaced := hcontent.right
      rw [List.length_replicate] at hplaced
      obtain ⟨hsome, htable⟩ := hread _ _ _ hwrite hplaced.left
      have hinside := hplaced.left.le
      have htarget := hslots.left.follow_distance field hlimit hfits (by omega)
        (Nat.le_add_right_of_le hfloor) (by omega)
      have hslots := hslots.right
      rw [length_slotBytes] at hslots
      rw [List.length_cons] at hbefore
      obtain ⟨extent, hrest, hextent⟩ := ih hlater hslots hplaced.right (by omega) (by omega)
        (by omega)
      refine ⟨max (max (slot + 4) (position + padding position + content.length)) extent, ?_, ?_⟩
      · simp only [List.length_cons, readTables, bind, Except.bind, htarget, htable, hrest,
          List.map_cons]
      · simp only [List.length_append, List.length_replicate]
        omega

mutual

/-- A table that a buffer holds as written reads back as the values that the schema names. -/
theorem Schema.readAt_write {buffer : Bytes} {start : Nat} {values : FieldSet} {content : Bytes} :
    (schema : Schema) → schema.distinct = true → schema.solid = true →
      Schema.write start values schema = .ok content → Holds buffer start content →
      buffer.length < positionLimit →
      Schema.readAt buffer start schema
        = .ok ⟨Schema.select values schema, start + content.length⟩
  | ⟨_, fields⟩, hdistinct, hsolid, h, hholds, hlimit => by
      obtain ⟨cells, tail, hcells, htail, rfl⟩ := Schema.write_eq_ok.mp h
      have hlength := length_fillCells tail.slots hcells
      have hinline := hholds.left.bytesAt_eq hlimit
      have hcontent := hholds.right
      rw [hlength] at hinline hcontent
      obtain ⟨extent, hread, hextent⟩ := readFields_write fields hdistinct hsolid
        (fun name _ => FieldSet.get?_nil name) hcells htail hholds.left hcontent hlimit
        (Nat.le_add_right _ _) (Nat.le_refl _) (Nat.le_refl _)
      rw [Schema.readAt, hinline]
      simp only [bind, Except.bind, hread, List.nil_append, hextent, List.length_append, hlength,
        Nat.add_assoc]
      rfl

theorem readFields_write {buffer : Bytes} {origin floor cursor position : Nat}
    {values acc : FieldSet} {cells : List Cell} {tail : Tail} :
    (fields : List FieldSpec) → distinctFields fields = true → solidFields fields = true →
      (∀ name ∈ fieldNames fields, acc.get? name = none) →
      inlineCells values fields = .ok cells → writeTails origin position values fields = .ok tail →
      Holds buffer cursor (fillCells cells tail.slots) → Holds buffer position tail.bytes →
      buffer.length < positionLimit → origin ≤ position → floor ≤ position →
      cursor + inlineSize fields ≤ position →
      ∃ extent, readFields buffer origin floor cursor acc fields
          = .ok ⟨acc ++ selectFields values fields, extent⟩
        ∧ max position extent = position + tail.bytes.length
  | [], _, _, _, hcells, htail, _, _, _, _, _, _ => by
      cases hcells
      cases htail
      exact ⟨0, by simp [readFields, selectFields], by simp⟩
  | ⟨name, kind⟩ :: rest, hdistinct, hsolid, hfresh, hcells, htail, hinline, hcontent, hlimit,
      horigin, hfloor, hbefore => by
      obtain ⟨⟨hname, hdistinctKind⟩, hdistinctRest⟩ := distinctFields_cons hdistinct
      obtain ⟨hsolidKind, hsolidRest⟩ := Bool.and_eq_true_iff.mp hsolid
      obtain ⟨value, hvalue, cell, hcell, cellsRest, hcellsRest, rfl⟩ := inlineCells_cons.mp hcells
      obtain ⟨_, hsame, head, hhead, tailRest, htailRest, rfl⟩ := writeTails_cons.mp htail
      cases hvalue.symm.trans hsame
      have hbefore : cursor + (kind.inlineSize + inlineSize rest) ≤ position := hbefore
      have hbeforeKind : cursor + kind.inlineSize ≤ position := by omega
      obtain ⟨hfill, hsize⟩ := fillCells_cons hcell hhead cellsRest tailRest.slots
      rw [hfill] at hinline
      obtain ⟨extent, hread, hextent⟩ := Kind.readAt_write kind hdistinctKind hsolidKind hcell
        hhead hinline.left hcontent.left hlimit horigin hfloor hbeforeKind
      have hlater := hinline.right
      rw [hsize] at hlater
      have habsent := hfresh name List.mem_cons_self
      have hfreshRest (other : String) (hother : other ∈ fieldNames rest) :
          (acc ++ [(name, Kind.select value kind)]).get? other = none := by
        have hne : other ≠ name := by
          rintro rfl
          exact hname hother
        rw [FieldSet.get?_append, hfresh other (List.mem_cons_of_mem _ hother), Option.none_or,
          FieldSet.get?_cons_ne hne, FieldSet.get?_nil]
      obtain ⟨extentRest, hreadRest, hextentRest⟩ := readFields_write rest hdistinctRest hsolidRest
        hfreshRest hcellsRest htailRest hlater hcontent.right hlimit
        (Nat.le_add_right_of_le horigin) (Nat.le_add_right_of_le hfloor) (by omega)
      refine ⟨max extent extentRest, ?_, ?_⟩
      · simp only [readFields, bind, Except.bind, hread,
          FieldSet.insert_of_get?_eq_none habsent, hreadRest, selectFields,
          hvalue, List.append_assoc, List.singleton_append]
      · rw [List.length_append]
        omega

/-- The inline piece and the content of a field, held at their places, read back as its value. -/
theorem Kind.readAt_write {buffer : Bytes} {origin floor cursor position : Nat} {field : String}
    {value : Value} {cell : Cell} {tail : Tail} :
    (kind : Kind) → kind.distinct = true → kind.solid = true →
      inlineCell field kind value = .ok cell →
      Kind.writeTail origin position field value kind = .ok tail →
      Holds buffer cursor (fillCells [cell] tail.slots) → Holds buffer position tail.bytes →
      buffer.length < positionLimit → origin ≤ position → floor ≤ position →
      cursor + kind.inlineSize ≤ position →
      ∃ extent, Kind.readAt buffer origin floor cursor field kind
          = .ok ⟨Kind.select value kind, extent⟩
        ∧ max position extent = position + tail.bytes.length
  | .scalar width, _, _, hcell, htail, hinline, _, hlimit, _, _, hbefore => by
      obtain ⟨n, rfl, hfits, rfl⟩ := inlineCell_scalar.mp hcell
      cases htail
      rw [fillCells, fillCells, List.append_nil] at hinline
      refine ⟨cursor + width.bytes, ?_, Nat.max_eq_left hbefore⟩
      rw [Kind.readAt, hinline.numberAt_eq hlimit hfits]
      simp [bind, Except.bind, Kind.select]
  | .array size, _, _, hcell, htail, hinline, _, hlimit, _, _, hbefore => by
      obtain ⟨bytes, rfl, rfl, rfl⟩ := inlineCell_array.mp hcell
      cases htail
      rw [fillCells, fillCells, List.append_nil] at hinline
      refine ⟨cursor + bytes.length, ?_, Nat.max_eq_left hbefore⟩
      rw [Kind.readAt, hinline.bytesAt_eq hlimit]
      rfl
  | .vector length, _, _, hcell, htail, hinline, hcontent, hlimit, _, hfloor, hbefore => by
      obtain ⟨bytes, rfl, hfits, hnear, rfl⟩ := Kind.writeTail_vector.mp htail
      cases hcell
      rw [fillCells, fillCells, List.append_nil] at hinline
      have hnumber := hcontent.left.right
      have hbytes := hcontent.right
      simp only [List.length_append, List.length_replicate, length_slotBytes,
        ← Nat.add_assoc] at hnumber hbytes
      have hread := hbytes.bytesAt_eq hlimit
      have hinside := hnumber.le
      rw [length_slotBytes] at hinside
      refine ⟨max (max (cursor + 4) (position + padding position + 4))
        (position + padding position + 4 + bytes.length), ?_, ?_⟩
      · have htarget := hinline.follow_eq field 0 hlimit hnear
          (Nat.le_add_left_of_le (Nat.le_add_right_of_le hfloor)) (by omega)
        rw [Nat.zero_add] at htarget
        rw [Kind.readAt, htarget]
        simp only [bind, Except.bind, hnumber.numberAt_eq hlimit hfits, hread]
        rfl
      · simp only [Kind.inlineSize, List.length_append, List.length_replicate,
          length_slotBytes] at hbefore ⊢
        omega
  | .table schema, hdistinct, hsolid, hcell, htail, hinline, hcontent, hlimit, horigin, hfloor,
      hbefore => by
      obtain ⟨nested, rfl, content, hwrite, hnear, rfl⟩ := Kind.writeTail_table.mp htail
      cases hcell
      obtain ⟨hsome, hsolid⟩ := Bool.and_eq_true_iff.mp hsolid
      rw [fillCells, fillCells, List.append_nil] at hinline
      have hplaced := hcontent.right
      rw [List.length_replicate] at hplaced
      have htable := Schema.readAt_write schema hdistinct hsolid hwrite hplaced hlimit
      have hinside := hplaced.le
      have hsize := Schema.size_le_write hwrite
      have hsome := of_decide_eq_true hsome
      refine ⟨max (cursor + 4) (position + padding position + content.length), ?_, ?_⟩
      · have htarget := hinline.follow_distance field hlimit hnear
          (Nat.le_add_right_of_le horigin) (Nat.le_add_right_of_le hfloor) (by omega)
        rw [Kind.readAt, htarget]
        simp only [bind, Except.bind, htable]
        rfl
      · simp only [Kind.inlineSize, List.length_append, List.length_replicate] at hbefore ⊢
        omega
  | .tableArray schema count, hdistinct, hsolid, hcell, htail, hinline, hcontent, hlimit, horigin,
      hfloor, hbefore => by
      obtain ⟨tables, rfl, hfits, written, hwritten, hnear, rfl⟩ :=
        Kind.writeTail_tableArray.mp htail
      cases hcell
      obtain ⟨hsome, hsolid⟩ := Bool.and_eq_true_iff.mp hsolid
      rw [fillCells, fillCells, List.append_nil] at hinline
      have hslots := hcontent.left.right
      have hnumber := hcontent.left.left.right
      have htables := hcontent.right
      have hlength := length_flatMap_slotBytes written.slots
      rw [length_slots_writeTables hwritten] at hlength
      simp only [List.length_append, List.length_replicate, length_slotBytes, hlength,
        ← Nat.add_assoc] at hslots hnumber htables
      have hinside := hnumber.le
      rw [length_slotBytes] at hinside
      have hread (start : Nat) (table : FieldSet) (content : Bytes)
          (hwrite : Schema.write start table schema = .ok content)
          (hholds : Holds buffer start content) : 0 < content.length
          ∧ Schema.readAt buffer start schema
            = .ok ⟨Schema.select table schema, start + content.length⟩ :=
        ⟨Nat.lt_of_lt_of_le (of_decide_eq_true hsome) (Schema.size_le_write hwrite),
          Schema.readAt_write schema hdistinct hsolid hwrite hholds hlimit⟩
      have hbytes := hslots.bytesAt_eq hlimit
      rw [hlength] at hbytes
      obtain ⟨extent, hreadTables, hextent⟩ := readTables_write field hread hlimit hwritten hslots
        htables (by omega) (Nat.le_refl _) (Nat.le_refl _)
      refine ⟨max (max (max (cursor + 4) (position + padding position + 4))
        (position + padding position + 4 + 4 * tables.length)) extent, ?_, ?_⟩
      · have htarget := hinline.follow_distance field hlimit hnear
          (Nat.le_add_right_of_le horigin) (Nat.le_add_right_of_le hfloor) (by omega)
        rw [Kind.readAt, htarget]
        simp only [bind, Except.bind, hnumber.numberAt_eq hlimit hfits, hbytes, hreadTables]
        rfl
      · simp only [Kind.inlineSize, List.length_append, List.length_replicate, hlength,
          length_slotBytes] at hbefore ⊢
        omega

end

theorem decode_encode {fields : List FieldSpec} {values : FieldSet} {buffer : Bytes}
    (hdistinct : distinctFields fields = true) (hsolid : solidFields fields = true)
    (h : encode fields values = .ok buffer) (hlimit : buffer.length < positionLimit) :
    decode fields buffer = .ok ⟨selectFields values fields, buffer.length⟩ := by
  rw [decode, Schema.readAt_write ⟨"", fields⟩ hdistinct hsolid h (.self buffer) hlimit]
  simp only [bind, Except.bind, Nat.zero_add]
  rfl

end LedgerTx.Layout
