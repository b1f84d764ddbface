import LedgerTx.Proofs.Layout.Table

/-!
# The size of offset tables

Values that were written are shaped, and what was written ends where a slot
can reach.  Shaped values are written when their content stays inside the
range of a slot, and are refused for their size only; the span of values
bounds what padding, slots and contents take, and is at most a multiple of
the flat form.
-/

namespace LedgerTx.Layout

/-! ## What was written -/

mutual

/-- A bound for the bytes of a table that was written. -/
def Schema.reach : Schema → Nat
  | ⟨_, fields⟩ => max (inlineSize fields) (reachFields fields)

def reachFields : List FieldSpec → Nat
  | [] => 0
  | ⟨_, kind⟩ :: rest => max (Kind.reach kind) (reachFields rest)

def Kind.reach : Kind → Nat
  | .scalar _ | .array _ => 0
  | .vector _ => 2 * slotLimit + 4
  | .table schema => slotLimit + Schema.reach schema
  | .tableArray schema _ => 5 * slotLimit + 4 + Schema.reach schema

end

theorem writeTables_reach {write : Nat → FieldSet → Except Error Bytes} {good : FieldSet → Prop}
    {bound : Nat}
    (hwrite : ∀ start table content, write start table = .ok content →
      good table ∧ content.length ≤ bound)
    {origin position : Nat} {tables : List FieldSet} {tail : Tail} (horigin : origin ≤ position)
    (h : writeTables write origin position tables = .ok tail) :
    (∀ table ∈ tables, good table)
      ∧ position + tail.bytes.length ≤ max position (origin + slotLimit + bound) := by
  induction tables generalizing position tail with
  | nil =>
      cases h
      exact ⟨by simp, Nat.le_max_left _ _⟩
  | cons table rest ih =>
      obtain ⟨content, htable, hnear, later, hlater, rfl⟩ := writeTables_cons.mp h
      obtain ⟨hgood, hlength⟩ := hwrite _ _ _ htable
      obtain ⟨hgoodRest, hend⟩ := ih (by omega) hlater
      refine ⟨List.forall_mem_cons.mpr ⟨hgood, hgoodRest⟩, ?_⟩
      simp only [List.length_append, List.length_replicate]
      omega

mutual

theorem Schema.write_reach {start : Nat} {values : FieldSet} {content : Bytes} :
    (schema : Schema) → Schema.write start values schema = .ok content →
      Schema.Shaped values schema ∧ content.length ≤ schema.reach
  | ⟨_, fields⟩, h => by
      obtain ⟨cells, tail, hcells, htail, rfl⟩ := Schema.write_eq_ok.mp h
      obtain ⟨hshaped, hend⟩ := writeTails_reach fields (Nat.le_add_right _ _) hcells htail
      refine ⟨hshaped, ?_⟩
      rw [Schema.reach, List.length_append, length_fillCells tail.slots hcells]
      omega

theorem writeTails_reach {origin position : Nat} {values : FieldSet} {cells : List Cell}
    {tail : Tail} :
    (fields : List FieldSpec) → origin ≤ position → inlineCells values fields = .ok cells →
      writeTails origin position values fields = .ok tail →
      ShapedFields values fields
        ∧ position + tail.bytes.length ≤ max position (origin + reachFields fields)
  | [], _, _, htail => by
      cases htail
      exact ⟨trivial, Nat.le_max_left _ _⟩
  | ⟨_, kind⟩ :: rest, horigin, hcells, htail => by
      obtain ⟨value, hvalue, cell, hcell, cellsRest, hcellsRest, -⟩ := inlineCells_cons.mp hcells
      obtain ⟨_, hsame, head, hhead, tailRest, htailRest, rfl⟩ := writeTails_cons.mp htail
      cases hvalue.symm.trans hsame
      obtain ⟨hshaped, hend⟩ := Kind.writeTail_reach kind horigin hcell hhead
      obtain ⟨hshapedRest, hendRest⟩ := writeTails_reach rest (by omega) hcellsRest htailRest
      refine ⟨⟨⟨value, hvalue, hshaped⟩, hshapedRest⟩, ?_⟩
      simp only [reachFields, List.length_append]
      omega

theorem Kind.writeTail_reach {origin position : Nat} {field : String} {value : Value} {cell : Cell}
    {tail : Tail} :
    (kind : Kind) → origin ≤ position → inlineCell field kind value = .ok cell →
      Kind.writeTail origin position field value kind = .ok tail →
      Kind.Shaped value kind
        ∧ position + tail.bytes.length ≤ max position (origin + kind.reach)
  | .scalar width, _, hcell, htail => by
      obtain ⟨n, rfl, hfits, -⟩ := inlineCell_scalar.mp hcell
      cases htail
      exact ⟨⟨n, rfl, hfits⟩, Nat.le_max_left _ _⟩
  | .array size, _, hcell, htail => by
      obtain ⟨bytes, rfl, hsize, -⟩ := inlineCell_array.mp hcell
      cases htail
      exact ⟨⟨bytes, rfl, hsize⟩, Nat.le_max_left _ _⟩
  | .vector _, _, _, htail => by
      obtain ⟨bytes, rfl, hfits, hnear, rfl⟩ := Kind.writeTail_vector.mp htail
      refine ⟨⟨bytes, rfl⟩, ?_⟩
      simp only [Kind.reach, List.length_append, List.length_replicate, length_slotBytes]
      omega
  | .table schema, horigin, _, htail => by
      obtain ⟨nested, rfl, content, hwrite, hnear, rfl⟩ := Kind.writeTail_table.mp htail
      obtain ⟨hshaped, hlength⟩ := Schema.write_reach schema hwrite
      refine ⟨⟨nested, rfl, hshaped⟩, ?_⟩
      simp only [Kind.reach, List.length_append, List.length_replicate]
      omega
  | .tableArray schema _, horigin, _, htail => by
      obtain ⟨tables, rfl, hfits, written, hwritten, hnear, rfl⟩ :=
        Kind.writeTail_tableArray.mp htail
      obtain ⟨hshaped, hend⟩ := writeTables_reach
        (fun _ _ _ hwrite => Schema.write_reach schema hwrite) (by omega) hwritten
      refine ⟨⟨tables, rfl, hshaped⟩, ?_⟩
      simp only [Kind.reach, List.length_append, List.length_replicate, length_slotBytes,
        length_flatMap_slotBytes, length_slots_writeTables hwritten]
      omega

end

theorem length_flatMap_raw_le {write : Nat → FieldSet → Except Error Bytes}
    {form : FieldSet → Bytes}
    (hwrite : ∀ start table content, write start table = .ok content →
      (form table).length ≤ content.length)
    {origin position : Nat} {tables : List FieldSet} {tail : Tail}
    (h : writeTables write origin position tables = .ok tail) :
    (tables.flatMap form).length ≤ tail.bytes.length := by
  induction tables generalizing position tail with
  | nil => exact Nat.zero_le _
  | cons table rest ih =>
      obtain ⟨content, htable, -, later, hlater, rfl⟩ := writeTables_cons.mp h
      have hhead := hwrite _ _ _ htable
      have hrest := ih hlater
      simp only [List.flatMap_cons, List.length_append]
      omega

mutual

/-- The raw form of values that were written is no longer than what was written. -/
theorem Schema.length_raw_le {start : Nat} {values : FieldSet} {content : Bytes} :
    (schema : Schema) → Schema.write start values schema = .ok content →
      (Schema.raw values schema).length ≤ content.length
  | ⟨_, fields⟩, h => by
      obtain ⟨cells, tail, hcells, htail, rfl⟩ := Schema.write_eq_ok.mp h
      rw [Schema.raw, List.length_append, length_fillCells tail.slots hcells]
      exact length_rawFields_le fields hcells htail

theorem length_rawFields_le {origin position : Nat} {values : FieldSet} {cells : List Cell}
    {tail : Tail} :
    (fields : List FieldSpec) → inlineCells values fields = .ok cells →
      writeTails origin position values fields = .ok tail →
      (rawFields values fields).length ≤ inlineSize fields + tail.bytes.length
  | [], _, _ => Nat.zero_le _
  | ⟨_, kind⟩ :: rest, hcells, htail => by
      obtain ⟨value, hvalue, cell, hcell, cellsRest, hcellsRest, -⟩ := inlineCells_cons.mp hcells
      obtain ⟨_, hsame, head, hhead, tailRest, htailRest, rfl⟩ := writeTails_cons.mp htail
      cases hvalue.symm.trans hsame
      have hkind := Kind.length_raw_le kind hcell hhead
      have hrest := length_rawFields_le rest hcellsRest htailRest
      simp only [rawFields, hvalue, inlineSize, List.length_append]
      omega

theorem Kind.length_raw_le {origin position : Nat} {field : String} {value : Value} {cell : Cell}
    {tail : Tail} :
    (kind : Kind) → inlineCell field kind value = .ok cell →
      Kind.writeTail origin position field value kind = .ok tail →
      (Kind.raw value kind).length ≤ kind.inlineSize + tail.bytes.length
  | .scalar width, hcell, _ => by
      obtain ⟨n, rfl, -, -⟩ := inlineCell_scalar.mp hcell
      rw [Kind.raw, LittleEndian.length_encode]
      exact Nat.le_add_right _ _
  | .array size, hcell, _ => by
      obtain ⟨bytes, rfl, hsize, -⟩ := inlineCell_array.mp hcell
      rw [Kind.raw, hsize]
      exact Nat.le_add_right _ _
  | .vector _, _, htail => by
      obtain ⟨bytes, rfl, -, -, rfl⟩ := Kind.writeTail_vector.mp htail
      simp only [Kind.raw, List.length_append]
      omega
  | .table schema, _, htail => by
      obtain ⟨nested, rfl, content, hwrite, -, rfl⟩ := Kind.writeTail_table.mp htail
      have hnested := Schema.length_raw_le schema hwrite
      simp only [Kind.raw, List.length_append]
      omega
  | .tableArray schema _, _, htail => by
      obtain ⟨tables, rfl, -, written, hwritten, -, rfl⟩ := Kind.writeTail_tableArray.mp htail
      have htables := length_flatMap_raw_le
        (fun _ _ _ hwrite => Schema.length_raw_le schema hwrite) hwritten
      simp only [Kind.raw, List.length_append]
      omega

end

/-! ## What can be written -/

mutual

/-- A bound for the bytes that a table takes. -/
def Schema.span (values : FieldSet) : Schema → Nat
  | ⟨_, fields⟩ => inlineSize fields + spanFields values fields

def spanFields (values : FieldSet) : List FieldSpec → Nat
  | [] => 0
  | ⟨name, kind⟩ :: rest =>
      (match values.get? name with
        | some value => Kind.span value kind
        | none => 0) + spanFields values rest

/-- A bound for the bytes that the content of a field takes, padding and numbers included. -/
def Kind.span (value : Value) : Kind → Nat
  | .scalar _ | .array _ => 0
  | .vector _ =>
      match value with
      | .vector bytes => 7 + bytes.length
      | _ => 0
  | .table schema =>
      match value with
      | .table nested => 3 + Schema.span nested schema
      | _ => 0
  | .tableArray schema _ =>
      match value with
      | .tableArray tables => 7 + (tables.map fun nested => 7 + Schema.span nested schema).sum
      | _ => 0

end

theorem inlineCell_of_shaped {kind : Kind} {value : Value} (field : String)
    (h : Kind.Shaped value kind) : ∃ cell, inlineCell field kind value = .ok cell := by
  cases kind with
  | scalar width =>
      obtain ⟨n, rfl, hfits⟩ := h
      exact ⟨_, inlineCell_scalar.mpr ⟨n, rfl, hfits, rfl⟩⟩
  | array size =>
      obtain ⟨bytes, rfl, hsize⟩ := h
      exact ⟨_, inlineCell_array.mpr ⟨bytes, rfl, hsize, rfl⟩⟩
  | vector length =>
      obtain ⟨bytes, rfl⟩ := h
      exact ⟨.slot, rfl⟩
  | table schema =>
      obtain ⟨nested, rfl, -⟩ := h
      exact ⟨.slot, rfl⟩
  | tableArray schema count =>
      obtain ⟨tables, rfl, -⟩ := h
      exact ⟨.slot, rfl⟩

theorem inlineCells_of_shaped {values : FieldSet} :
    {fields : List FieldSpec} → ShapedFields values fields →
      ∃ cells, inlineCells values fields = .ok cells
  | [], _ => ⟨[], rfl⟩
  | ⟨name, _⟩ :: _, ⟨⟨value, hvalue, hshaped⟩, hrest⟩ => by
      obtain ⟨cell, hcell⟩ := inlineCell_of_shaped name hshaped
      obtain ⟨cells, hcells⟩ := inlineCells_of_shaped hrest
      exact ⟨_, inlineCells_cons.mpr ⟨value, hvalue, cell, hcell, cells, hcells, rfl⟩⟩

theorem length_le_sum_span {span : FieldSet → Nat} (tables : List FieldSet) :
    4 * tables.length + (tables.map fun table => 3 + span table).sum
      = (tables.map fun table => 7 + span table).sum := by
  induction tables with
  | nil => rfl
  | cons table rest ih =>
      simp only [List.length_cons, List.map_cons, List.sum_cons]
      omega

theorem writeTables_of_span {write : Nat → FieldSet → Except Error Bytes} {span : FieldSet → Nat}
    {origin position : Nat} {tables : List FieldSet}
    (hwrite : ∀ start, ∀ table ∈ tables, start + span table < slotLimit →
      ∃ content, write start table = .ok content ∧ content.length ≤ span table)
    (hlimit : position + (tables.map fun table => 3 + span table).sum < slotLimit) :
    ∃ tail, writeTables write origin position tables = .ok tail
      ∧ tail.bytes.length ≤ (tables.map fun table => 3 + span table).sum := by
  induction tables generalizing position with
  | nil => exact ⟨_, rfl, Nat.le_refl 0⟩
  | cons table rest ih =>
      rw [List.map_cons, List.sum_cons] at hlimit ⊢
      have hgap := padding_le position
      obtain ⟨content, htable, hlength⟩ := hwrite (position + padding position) table
        List.mem_cons_self (by omega)
      have hlimitRest : position + padding position + content.length
          + (rest.map fun table => 3 + span table).sum < slotLimit := by omega
      obtain ⟨tail, htail, hlengthRest⟩ := ih
        (fun start other hother => hwrite start other (List.mem_cons_of_mem _ hother)) hlimitRest
      refine ⟨_, writeTables_cons.mpr ⟨content, htable, by omega, tail, htail, rfl⟩, ?_⟩
      simp only [List.length_append, List.length_replicate]
      omega

mutual

theorem Schema.write_of_span {values : FieldSet} :
    (schema : Schema) → (start : Nat) → Schema.Shaped values schema →
      start + Schema.span values schema < slotLimit →
      ∃ content, Schema.write start values schema = .ok content
        ∧ content.length ≤ Schema.span values schema
  | ⟨_, fields⟩, start, hshaped, hlimit => by
      rw [Schema.span] at hlimit ⊢
      obtain ⟨cells, hcells⟩ := inlineCells_of_shaped hshaped
      obtain ⟨tail, htail, hlength⟩ := writeTails_of_span fields start (start + inlineSize fields)
        hshaped (by omega)
      refine ⟨_, Schema.write_eq_ok.mpr ⟨cells, tail, hcells, htail, rfl⟩, ?_⟩
      rw [List.length_append, length_fillCells tail.slots hcells]
      omega

theorem writeTails_of_span {values : FieldSet} :
    (fields : List FieldSpec) → (origin position : Nat) → ShapedFields values fields →
      position + spanFields values fields < slotLimit →
      ∃ tail, writeTails origin position values fields = .ok tail
        ∧ tail.bytes.length ≤ spanFields values fields
  | [], _, _, _, _ => ⟨_, rfl, Nat.le_refl 0⟩
  | ⟨name, kind⟩ :: rest, origin, position, ⟨⟨value, hvalue, hshaped⟩, hrest⟩, hlimit => by
      simp only [spanFields, hvalue] at hlimit ⊢
      obtain ⟨head, hhead, hlength⟩ := Kind.writeTail_of_span kind origin position name hshaped
        (by omega)
      obtain ⟨tail, htail, hlengthRest⟩ := writeTails_of_span rest origin
        (position + head.bytes.length) hrest (by omega)
      refine ⟨_, writeTails_cons.mpr ⟨value, hvalue, head, hhead, tail, htail, rfl⟩, ?_⟩
      simp only [List.length_append]
      omega

theorem Kind.writeTail_of_span {value : Value} :
    (kind : Kind) → (origin position : Nat) → (field : String) → Kind.Shaped value kind →
      position + Kind.span value kind < slotLimit →
      ∃ tail, Kind.writeTail origin position field value kind = .ok tail
        ∧ tail.bytes.length ≤ Kind.span value kind
  | .scalar _, _, _, _, _, _ => ⟨_, rfl, Nat.zero_le _⟩
  | .array _, _, _, _, _, _ => ⟨_, rfl, Nat.zero_le _⟩
  | .vector _, origin, position, field, ⟨bytes, hbytes⟩, hlimit => by
      subst hbytes
      simp only [Kind.span] at hlimit ⊢
      have hgap := padding_le position
      refine ⟨_, Kind.writeTail_vector.mpr ⟨bytes, rfl, by omega, by omega, rfl⟩, ?_⟩
      simp only [List.length_append, List.length_replicate, length_slotBytes]
      omega
  | .table schema, origin, position, field, ⟨nested, hnested, hshaped⟩, hlimit => by
      subst hnested
      simp only [Kind.span] at hlimit ⊢
      have hgap := padding_le position
      obtain ⟨content, hwrite, hlength⟩ := Schema.write_of_span schema
        (position + padding position) hshaped (by omega)
      refine ⟨_, Kind.writeTail_table.mpr ⟨nested, rfl, content, hwrite, by omega, rfl⟩, ?_⟩
      simp only [List.length_append, List.length_replicate]
      omega
  | .tableArray schema count, origin, position, field, ⟨tables, htables, hshaped⟩, hlimit => by
      subst htables
      simp only [Kind.span] at hlimit ⊢
      have hgap := padding_le position
      have hsum := @length_le_sum_span (fun nested => Schema.span nested schema) tables
      obtain ⟨tail, htail, hlength⟩ := @writeTables_of_span
        (fun position nested => Schema.write position nested schema)
        (fun nested => Schema.span nested schema) origin
        (position + padding position + 4 + 4 * tables.length) tables
        (fun start table htable => Schema.write_of_span schema start (hshaped table htable))
        (by omega)
      refine ⟨_, Kind.writeTail_tableArray.mpr
        ⟨tables, rfl, by omega, tail, htail, by omega, rfl⟩, ?_⟩
      simp only [List.length_append, List.length_replicate, length_slotBytes,
        length_flatMap_slotBytes, length_slots_writeTables htail]
      omega

end

/-! ## Refusals -/

/-- A computation that is refused for the size of something only. -/
def FailsBySize {α : Type} (x : Except Error α) : Prop :=
  ∀ e, x = .error e → e = .tooLarge

namespace FailsBySize

variable {α β : Type}

theorem of_ok {x : Except Error α} {a : α} (h : x = .ok a) : FailsBySize x := by
  rintro e he
  rw [h] at he
  cases he

theorem bind {x : Except Error α} {f : α → Except Error β} (hx : FailsBySize x)
    (hf : ∀ a, FailsBySize (f a)) : FailsBySize (x >>= f) := by
  intro e he
  cases x with
  | error cause =>
      cases he
      exact hx e rfl
  | ok a => exact hf a e he

theorem slotNumber (n : Nat) : FailsBySize (slotNumber n) := by
  intro e he
  unfold Layout.slotNumber at he
  split at he
  · cases he
  · exact (Except.error.inj he).symm

theorem writeTables {write : Nat → FieldSet → Except Error Bytes} {tables : List FieldSet}
    (hwrite : ∀ start, ∀ table ∈ tables, FailsBySize (write start table)) (origin position : Nat) :
    FailsBySize (writeTables write origin position tables) := by
  induction tables generalizing position with
  | nil => exact of_ok rfl
  | cons table rest ih =>
      obtain ⟨htable, hrest⟩ : (∀ start, FailsBySize (write start table)) ∧ ∀ start,
          ∀ other ∈ rest, FailsBySize (write start other) :=
        ⟨fun start => hwrite start table List.mem_cons_self,
          fun start other hother => hwrite start other (List.mem_cons_of_mem _ hother)⟩
      exact (htable _).bind fun _ => (slotNumber _).bind fun _ => (ih hrest _).bind fun _ =>
        of_ok rfl

end FailsBySize

mutual

theorem Schema.write_failsBySize {values : FieldSet} :
    (schema : Schema) → (start : Nat) → Schema.Shaped values schema →
      FailsBySize (Schema.write start values schema)
  | ⟨_, fields⟩, start, hshaped => by
      obtain ⟨cells, hcells⟩ := inlineCells_of_shaped hshaped
      exact (FailsBySize.of_ok hcells).bind fun _ =>
        (writeTails_failsBySize fields start _ hshaped).bind fun _ => .of_ok rfl

theorem writeTails_failsBySize {values : FieldSet} :
    (fields : List FieldSpec) → (origin position : Nat) → ShapedFields values fields →
      FailsBySize (writeTails origin position values fields)
  | [], _, _, _ => .of_ok rfl
  | ⟨name, kind⟩ :: rest, origin, position, ⟨⟨value, hvalue, hshaped⟩, hrest⟩ => by
      rw [writeTails, FieldSet.get_eq_ok.mpr hvalue]
      exact (Kind.writeTail_failsBySize kind origin position name hshaped).bind fun _ =>
        (writeTails_failsBySize rest origin _ hrest).bind fun _ => .of_ok rfl

theorem Kind.writeTail_failsBySize {value : Value} :
    (kind : Kind) → (origin position : Nat) → (field : String) → Kind.Shaped value kind →
      FailsBySize (Kind.writeTail origin position field value kind)
  | .scalar _, _, _, _, _ => .of_ok rfl
  | .array _, _, _, _, _ => .of_ok rfl
  | .vector _, _, _, _, ⟨_, hbytes⟩ => by
      subst hbytes
      exact (FailsBySize.slotNumber _).bind fun _ => (FailsBySize.slotNumber _).bind fun _ =>
        .of_ok rfl
  | .table schema, _, _, _, ⟨_, hnested, hshaped⟩ => by
      subst hnested
      exact (Schema.write_failsBySize schema _ hshaped).bind fun _ =>
        (FailsBySize.slotNumber _).bind fun _ => .of_ok rfl
  | .tableArray schema _, origin, _, _, ⟨tables, htables, hshaped⟩ => by
      subst htables
      have hwrite (start : Nat) (table : FieldSet) (htable : table ∈ tables) :=
        Schema.write_failsBySize schema start (hshaped table htable)
      exact (FailsBySize.slotNumber _).bind fun _ =>
        (FailsBySize.writeTables hwrite origin _).bind fun _ =>
          (FailsBySize.slotNumber _).bind fun _ => .of_ok rfl

end

/-! ## Values that sit inline -/

/-- Whether a field sits inline as a whole, with nothing behind a slot. -/
def Kind.inline : Kind → Bool
  | .scalar _ | .array _ => true
  | .vector _ | .table _ | .tableArray _ _ => false

/-! ## The span against the flat form -/

mutual

/-- The bytes of a table that its flat form does not account for. -/
def Schema.slack : Schema → Nat
  | ⟨_, fields⟩ => slackFields fields

def slackFields : List FieldSpec → Nat
  | [] => 0
  | ⟨_, kind⟩ :: rest => Kind.slack kind + slackFields rest

def Kind.slack : Kind → Nat
  | .scalar _ | .array _ => 0
  | .vector _ => 11
  | .table schema => 7 + Schema.slack schema
  | .tableArray _ _ => 11

end

mutual

/-- Whether a table takes, apart from its slack, at most `factor` times its flat form. -/
def Schema.dense (factor : Nat) : Schema → Bool
  | ⟨_, fields⟩ => denseFields factor fields

def denseFields (factor : Nat) : List FieldSpec → Bool
  | [] => true
  | ⟨_, kind⟩ :: rest => Kind.dense factor kind && denseFields factor rest

/--
Whether a field takes, apart from its slack, at most `factor` times its flat
form.  The flat form of a table in an array makes up for its slack.
-/
def Kind.dense (factor : Nat) : Kind → Bool
  | .scalar _ | .array _ | .vector _ => 0 < factor
  | .table schema => Schema.dense factor schema
  | .tableArray schema _ =>
      7 + schema.slack ≤ 7 * (factor / 8 * schema.least) && Schema.dense (factor / 8) schema

end

theorem sum_span_le {span raw : FieldSet → Nat} {factor : Nat} {tables : List FieldSet}
    (h : ∀ table ∈ tables, 7 + span table ≤ factor * raw table) :
    (tables.map fun table => 7 + span table).sum ≤ factor * (tables.map raw).sum := by
  induction tables with
  | nil => exact Nat.zero_le _
  | cons table rest ih =>
      have hhead := h table List.mem_cons_self
      have hrest := ih fun other hother => h other (List.mem_cons_of_mem _ hother)
      simp only [List.map_cons, List.sum_cons, Nat.mul_add]
      omega

mutual

theorem Schema.span_le {factor : Nat} {values : FieldSet} :
    (schema : Schema) → Schema.dense factor schema = true → Schema.Shaped values schema →
      Schema.span values schema ≤ factor * (Schema.raw values schema).length + schema.slack
  | ⟨_, fields⟩, hdense, hshaped => spanFields_le fields hdense hshaped

theorem spanFields_le {factor : Nat} {values : FieldSet} :
    (fields : List FieldSpec) → denseFields factor fields = true → ShapedFields values fields →
      inlineSize fields + spanFields values fields
        ≤ factor * (rawFields values fields).length + slackFields fields
  | [], _, _ => Nat.zero_le _
  | ⟨_, kind⟩ :: rest, hdense, ⟨⟨_, hvalue, hshaped⟩, hrest⟩ => by
      obtain ⟨hdenseKind, hdenseRest⟩ := Bool.and_eq_true_iff.mp hdense
      have hhead := Kind.span_le kind hdenseKind hshaped
      have htail := spanFields_le rest hdenseRest hrest
      simp only [inlineSize, spanFields, rawFields, slackFields, hvalue, List.length_append,
        Nat.mul_add]
      omega

theorem Kind.span_le {factor : Nat} {value : Value} :
    (kind : Kind) → Kind.dense factor kind = true → Kind.Shaped value kind →
      kind.inlineSize + Kind.span value kind ≤ factor * (Kind.raw value kind).length + kind.slack
  | .scalar width, hdense, ⟨n, hn, _⟩ => by
      subst hn
      have hfactor := Nat.le_mul_of_pos_left width.bytes (of_decide_eq_true hdense)
      simpa [Kind.inlineSize, Kind.span, Kind.raw, Kind.slack] using hfactor
  | .array size, hdense, ⟨bytes, hbytes, hsize⟩ => by
      subst hbytes hsize
      have hfactor := Nat.le_mul_of_pos_left bytes.length (of_decide_eq_true hdense)
      simpa [Kind.inlineSize, Kind.span, Kind.raw, Kind.slack] using hfactor
  | .vector _, hdense, ⟨bytes, hbytes⟩ => by
      subst hbytes
      have hfactor := Nat.le_mul_of_pos_left bytes.length (of_decide_eq_true hdense)
      simp only [Kind.inlineSize, Kind.span, Kind.raw, Kind.slack]
      omega
  | .table schema, hdense, ⟨nested, hnested, hshaped⟩ => by
      subst hnested
      have hspan := Schema.span_le schema hdense hshaped
      simp only [Kind.inlineSize, Kind.span, Kind.raw, Kind.slack]
      omega
  | .tableArray schema _, hdense, ⟨tables, htables, hshaped⟩ => by
      subst htables
      obtain ⟨hleast, hdense⟩ := Bool.and_eq_true_iff.mp hdense
      have hleast := of_decide_eq_true hleast
      have heach (table : FieldSet) (htable : table ∈ tables) : 7 + Schema.span table schema
          ≤ factor * (Schema.raw table schema).length := by
        have hspan := Schema.span_le schema hdense (hshaped table htable)
        have hlong := Nat.mul_le_mul_left (factor / 8)
          (Schema.least_le schema (hshaped table htable))
        calc 7 + Schema.span table schema
            ≤ 8 * (factor / 8 * (Schema.raw table schema).length) := by omega
          _ = 8 * (factor / 8) * (Schema.raw table schema).length := (Nat.mul_assoc _ _ _).symm
          _ ≤ factor * (Schema.raw table schema).length :=
            Nat.mul_le_mul_right _ (Nat.mul_div_le factor 8)
      have hsum := sum_span_le heach
      simp only [Kind.inlineSize, Kind.span, Kind.raw, Kind.slack, List.length_flatMap]
      omega

end

theorem encode_of_shaped {factor : Nat} {fields : List FieldSpec} {values : FieldSet}
    (hdense : denseFields factor fields = true) (hshaped : ShapedFields values fields)
    (hlimit : factor * (rawFields values fields).length + slackFields fields < slotLimit) :
    ∃ buffer, encode fields values = .ok buffer := by
  have hspan := spanFields_le fields hdense hshaped
  obtain ⟨buffer, hbuffer, -⟩ := @Schema.write_of_span values ⟨"", fields⟩ 0 hshaped (by
    rw [Schema.span]
    omega)
  exact ⟨buffer, hbuffer⟩

end LedgerTx.Layout
