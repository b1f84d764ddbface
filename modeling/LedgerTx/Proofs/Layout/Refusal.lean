import LedgerTx.Proofs.Layout.Fits

/-!
# Refused values

Fields that sit inline and hold their values have no part in what is refused
of the fields after them: what can refuse these are their own cells and
contents, and their lengths and numbers.  Of several tables in an array the
first one that cannot be written is refused.
-/

namespace LedgerTx.Layout

open FieldSet (get_eq_ok)

/-! ## Inline fields in front -/

variable {values others : FieldSet} {front fields : List FieldSpec}

theorem DeclaredFields.of_inline {scope : Scope} :
    {fields : List FieldSpec} → (∀ field ∈ fields, field.kind.inline = true) →
      DeclaredFields scope values fields
  | [], _ => trivial
  | ⟨_, kind⟩ :: _, h => by
      obtain ⟨hkind, hrest⟩ := List.forall_mem_cons.mp h
      refine ⟨fun value _ => ?_, DeclaredFields.of_inline hrest⟩
      cases kind with
      | scalar width | array size => trivial
      | vector length | table schema | tableArray schema count => cases hkind

theorem shapedFields_append :
    ShapedFields values (front ++ fields)
      ↔ ShapedFields values front ∧ ShapedFields values fields := by
  induction front with
  | nil => simp [ShapedFields]
  | cons field rest ih =>
      obtain ⟨name, kind⟩ := field
      rw [List.cons_append, ShapedFields, ShapedFields, ih, and_assoc]

theorem inlineCells_append {cells : List Cell} (hfront : inlineCells values front = .ok cells)
    (fields : List FieldSpec) :
    inlineCells values (front ++ fields) = (inlineCells values fields).map (cells ++ ·) := by
  induction front generalizing cells with
  | nil =>
      cases hfront
      cases hcells : inlineCells values fields <;> simp [hcells, Except.map]
  | cons field rest ih =>
      obtain ⟨value, hvalue, hfront⟩ := bind_eq_ok.mp hfront
      obtain ⟨cell, hcell, hfront⟩ := bind_eq_ok.mp hfront
      obtain ⟨cellsRest, hrest, hfront⟩ := bind_eq_ok.mp hfront
      cases hfront
      simp only [List.cons_append, inlineCells, hvalue, hcell, ih hrest, bind, Except.bind]
      cases inlineCells values fields <;> rfl

theorem writeTails_append (origin position : Nat)
    (hinline : ∀ field ∈ front, field.kind.inline = true) (hshaped : ShapedFields values front)
    (fields : List FieldSpec) :
    writeTails origin position values (front ++ fields)
      = writeTails origin position values fields := by
  induction front with
  | nil => rfl
  | cons field rest ih =>
      obtain ⟨name, kind⟩ := field
      obtain ⟨hkind, hrest⟩ := List.forall_mem_cons.mp hinline
      obtain ⟨⟨value, hvalue, -⟩, hshapedRest⟩ := hshaped
      have hhead : Kind.writeTail origin position name value kind = .ok ⟨[], []⟩ := by
        cases kind with
        | scalar width | array size => rfl
        | vector length | table schema | tableArray schema count => cases hkind
      rw [List.cons_append, writeTails, get_eq_ok.mpr hvalue]
      simp only [bind, Except.bind, hhead, List.length_nil, Nat.add_zero, ih hrest hshapedRest]
      cases writeTails origin position values fields <;> rfl

theorem flatFields_append (outer : Scope) (values : FieldSet) (front fields : List FieldSpec) :
    flatFields outer values (front ++ fields) = (do
      let bytes ← flatFields outer values front
      let more ← flatFields outer values fields
      .ok (bytes ++ more)) := by
  have hok (bytes : Bytes) (f : Bytes → Except Error Bytes) : (.ok bytes >>= f) = f bytes := rfl
  induction front with
  | nil =>
      simp only [List.nil_append, flatFields, hok]
      cases flatFields outer values fields <;> rfl
  | cons field rest ih =>
      obtain ⟨name, kind⟩ := field
      simp only [List.cons_append, flatFields, ih, bind_assoc, hok, List.append_assoc]

/-! ## Cells and contents -/

/-- What can refuse fields in an offset table: their cells, then their contents from a position on. -/
def contents (position : Nat) (values : FieldSet) (fields : List FieldSpec) : Except Error Tail := do
  let _ ← inlineCells values fields
  writeTails 0 position values fields

theorem inlineCells.congr : {fields : List FieldSpec} → Same values others fields →
    inlineCells values fields = inlineCells others fields
  | [], _ => rfl
  | ⟨name, _⟩ :: _, h => by
      have hget : values.get name = others.get name := by
        rw [FieldSet.get, FieldSet.get, h name List.mem_cons_self]
      rw [inlineCells, inlineCells, hget,
        inlineCells.congr fun other hother => h other (List.mem_cons_of_mem _ hother)]

theorem writeTails.congr (origin : Nat) : (position : Nat) → {fields : List FieldSpec} →
    Same values others fields →
      writeTails origin position values fields = writeTails origin position others fields
  | _, [], _ => rfl
  | position, ⟨name, kind⟩ :: rest, h => by
      have hget : values.get name = others.get name := by
        rw [FieldSet.get, FieldSet.get, h name List.mem_cons_self]
      have hrest (position : Nat) : writeTails origin position values rest
          = writeTails origin position others rest :=
        writeTails.congr origin position fun other hother => h other (List.mem_cons_of_mem _ hother)
      rw [writeTails, writeTails, hget]
      simp only [hrest]

theorem contents.congr (position : Nat) (h : Same values others fields) :
    contents position values fields = contents position others fields := by
  rw [contents, contents, inlineCells.congr h, writeTails.congr 0 position h]

theorem encode_sameRefusal (fields : List FieldSpec) (values : FieldSet) :
    SameRefusal (encode fields values) (contents (inlineSize fields) values fields) := by
  rw [encode, Schema.write, contents, Nat.zero_add]
  refine (SameRefusal.refl _).bind fun _ _ hcells hcells' => ?_
  cases hcells.symm.trans hcells'
  exact .bind_ok fun _ => ⟨_, rfl⟩

theorem contents_sameRefusal (hinline : ∀ field ∈ front, field.kind.inline = true)
    (hshaped : ShapedFields values front) (position : Nat) (fields : List FieldSpec) :
    SameRefusal (contents position values (front ++ fields)) (contents position values fields) := by
  obtain ⟨cells, hcells⟩ := inlineCells_of_shaped hshaped
  have hcellsAlike : SameRefusal (inlineCells values (front ++ fields))
      (inlineCells values fields) := by
    rw [inlineCells_append hcells]
    cases inlineCells values fields with
    | error e => exact .of_error rfl rfl
    | ok more => exact .of_ok rfl rfl
  rw [contents, contents, writeTails_append 0 position hinline hshaped]
  exact hcellsAlike.bind fun _ _ _ _ => .refl _

/-- Values that agree after the fields that sit inline are refused alike by the offset table. -/
theorem encode_sameRefusal_of_same (hinline : ∀ field ∈ front, field.kind.inline = true)
    (hshaped : ShapedFields values front) (hshaped' : ShapedFields others front)
    (hsame : Same values others fields) :
    SameRefusal (encode (front ++ fields) values) (encode (front ++ fields) others) := by
  have hcontents := contents_sameRefusal hinline hshaped (inlineSize (front ++ fields)) fields
  have hcontents' := contents_sameRefusal hinline hshaped' (inlineSize (front ++ fields)) fields
  rw [contents.congr _ hsame] at hcontents
  exact ((encode_sameRefusal _ values).trans hcontents).trans
    ((encode_sameRefusal _ others).trans hcontents').symm

/-! ## The flat form -/

theorem joinTables.congr {write write' : FieldSet → Except Error Bytes} :
    {tables : List FieldSet} → (∀ table ∈ tables, write table = write' table) →
      joinTables write tables = joinTables write' tables
  | [], _ => rfl
  | table :: rest, h => by
      obtain ⟨hhead, hrest⟩ := List.forall_mem_cons.mp h
      rw [joinTables, joinTables, hhead, joinTables.congr hrest]

mutual

theorem Schema.flat_agree {outer outer' : Scope} {values : FieldSet} :
    (schema : Schema) → Schema.Shaped values schema →
      Scope.Agree (Schema.free schema) outer outer' →
      Schema.flat outer values schema = Schema.flat outer' values schema
  | ⟨_, fields⟩, hshaped, hagree =>
      flatFields_agree fields hshaped (fun _ _ => rfl) (hagree.inside hshaped)

theorem flatFields_agree {outer outer' : Scope} {values others : FieldSet} :
    (fields : List FieldSpec) → ShapedFields values fields → Same values others fields →
      Scope.Agree (mentionedFields fields) (values :: outer) (others :: outer') →
      flatFields outer values fields = flatFields outer' others fields
  | [], _, _, _ => rfl
  | ⟨name, kind⟩ :: rest, ⟨⟨value, hvalue, hshaped⟩, hrest⟩, hsame, hagree => by
      have hvalue' : others.get? name = some value := hsame name List.mem_cons_self ▸ hvalue
      rw [flatFields, flatFields, get_eq_ok.mpr hvalue, get_eq_ok.mpr hvalue',
        flatFields_agree rest hrest (fun other hother => hsame other (List.mem_cons_of_mem _ hother))
          (hagree.mono fun name => List.mem_append_right _)]
      simp only [bind, Except.bind,
        Kind.flat_agree kind name hshaped (hagree.mono fun name => List.mem_append_left _)]

theorem Kind.flat_agree {scope scope' : Scope} {value : Value} :
    (kind : Kind) → (field : String) → Kind.Shaped value kind →
      Scope.Agree (Kind.mentioned kind) scope scope' →
      Kind.flat scope field value kind = Kind.flat scope' field value kind
  | .scalar _, _, _, _ => rfl
  | .array _, _, _, _ => rfl
  | .vector (.named scalar bias), field, ⟨bytes, hbytes⟩, hagree => by
      subst hbytes
      have hlength : scope.length field scalar bias = scope'.length field scalar bias := by
        rw [Scope.length, Scope.length, hagree scalar (List.mem_singleton.mpr rfl)]
      rw [Kind.flat, Kind.flat, hlength]
  | .vector .rest, _, ⟨bytes, hbytes⟩, _ => by
      subst hbytes
      rfl
  | .table schema, _, ⟨nested, hnested, hshaped⟩, hagree => by
      subst hnested
      exact Schema.flat_agree schema hshaped hagree
  | .tableArray schema (.named scalar), _, ⟨tables, htables, hshaped⟩, hagree => by
      subst htables
      have hnested (table : FieldSet) (htable : table ∈ tables) :=
        Schema.flat_agree schema (hshaped table htable)
          (hagree.mono fun name => List.mem_cons_of_mem _)
      rw [Kind.flat, Kind.flat, hagree scalar List.mem_cons_self, joinTables.congr hnested]
  | .tableArray schema .rest, _, ⟨tables, htables, hshaped⟩, hagree => by
      subst htables
      have hnested (table : FieldSet) (htable : table ∈ tables) :=
        Schema.flat_agree schema (hshaped table htable) hagree
      rw [Kind.flat, Kind.flat, joinTables.congr hnested]

end

theorem WellFormed.flatten_eq (hwf : WellFormed fields) {table : Bytes}
    (htable : encode fields values = .ok table) :
    flatten fields table = flatFields [] (selectFields values fields) fields := by
  obtain ⟨-, hreach⟩ := Schema.write_reach ⟨"", fields⟩ htable
  rw [flatten, decode_encode hwf.distinct hwf.solid htable (Nat.lt_of_le_of_lt hreach hwf.reach)]
  rfl

theorem flatten_sameRefusal (hwf : WellFormed (front ++ fields))
    (hinline : ∀ field ∈ front, field.kind.inline = true)
    (hclosed : ∀ name ∈ mentionedFields fields, name ∈ fieldNames fields)
    {table table' : Bytes} (htable : encode (front ++ fields) values = .ok table)
    (htable' : encode (front ++ fields) others = .ok table') (hsame : Same values others fields) :
    SameRefusal (flatten (front ++ fields) table) (flatten (front ++ fields) table') := by
  have hselected (values : FieldSet) {table : Bytes}
      (htable : encode (front ++ fields) values = .ok table) :=
    shapedFields_append.mp
      (selectFields_shaped _ hwf.distinct (Schema.write_reach ⟨"", front ++ fields⟩ htable).1)
  have hfront (values : FieldSet) {table : Bytes}
      (htable : encode (front ++ fields) values = .ok table) :=
    (flatFields_eq_ok [] (selectFields values (front ++ fields)) _ front).mpr
      ⟨⟨(hselected values htable).1, DeclaredFields.of_inline hinline⟩, rfl⟩
  have hselect : Same (selectFields values (front ++ fields)) (selectFields others (front ++ fields))
      fields := by
    intro name hname
    obtain ⟨⟨name, kind⟩, hmem, rfl⟩ := List.mem_map.mp hname
    have hmem := List.mem_append_right front hmem
    rw [get?_selectFields hwf.distinct hmem, get?_selectFields hwf.distinct hmem, hsame name hname]
  have hrest := @flatFields_agree [] [] _ _ fields (hselected values htable).2 hselect
    fun name hname => Scope.lookup_cons_eq (hselect name (hclosed name hname))
  rw [hwf.flatten_eq htable, hwf.flatten_eq htable', flatFields_append, flatFields_append, hrest]
  refine (SameRefusal.of_ok (hfront values htable) (hfront others htable')).bind fun _ _ _ _ => ?_
  exact (SameRefusal.bind_ok fun _ => ⟨_, rfl⟩).trans
    (SameRefusal.bind_ok fun _ => ⟨_, rfl⟩).symm

/-! ## The first fault -/

theorem Schema.write_eq_error {start : Nat} {cause : Error} : {schema : Schema} →
    inlineCells values schema.fields = .error cause →
      Schema.write start values schema = .error cause
  | ⟨_, _⟩, h => by
      rw [Schema.write, h]
      rfl

section Tables

variable {α : Type} {table : α → FieldSet} {fault : α → Option Error} {list : List α}
  {cause : Error}

/--
Of tables one after the other the first one that has a fault is refused, as
long as those before it stay in the range of a slot.
-/
theorem writeTables_eq_error {write : Nat → FieldSet → Except Error Bytes}
    {span : FieldSet → Nat} {origin position : Nat}
    (hfault : ∀ a ∈ list, ∀ e, fault a = some e → ∀ start, write start (table a) = .error e)
    (hwrite : ∀ a ∈ list, fault a = none → ∀ start, start + span (table a) < slotLimit →
      ∃ content, write start (table a) = .ok content ∧ content.length ≤ span (table a))
    (hlimit : position + ((list.map table).map fun nested => 3 + span nested).sum < slotLimit)
    (h : list.findSome? fault = some cause) :
    writeTables write origin position (list.map table) = .error cause := by
  induction list generalizing position with
  | nil => cases h
  | cons a rest ih =>
      obtain ⟨hfaultHead, hfaultRest⟩ := List.forall_mem_cons.mp hfault
      obtain ⟨hwriteHead, hwriteRest⟩ := List.forall_mem_cons.mp hwrite
      rw [List.findSome?_cons] at h
      rw [List.map_cons, List.map_cons, List.sum_cons] at hlimit
      rw [List.map_cons, writeTables]
      cases hhead : fault a with
      | some e =>
          rw [hhead] at h
          cases h
          rw [hfaultHead _ hhead]
          rfl
      | none =>
          rw [hhead] at h
          have hgap := padding_le position
          obtain ⟨content, hcontent, hlength⟩ :=
            hwriteHead hhead (position + padding position) (by omega)
          have hslot : slotNumber (position + padding position - origin) = .ok _ :=
            slotNumber_of_lt (by omega)
          have hrest : writeTables write origin (position + padding position + content.length)
              (rest.map table) = .error cause := ih hfaultRest hwriteRest (by omega) h
          simp only [bind, Except.bind, hcontent, hslot, hrest]

theorem contents_eq_error {schema : Schema} {count : Count} {name : String} {position : Nat}
    (hvalue : values.get? name = some (.tableArray (list.map table)))
    (hfault : ∀ a ∈ list, ∀ e, fault a = some e →
      inlineCells (table a) schema.fields = .error e)
    (hshaped : ∀ a ∈ list, fault a = none → Schema.Shaped (table a) schema)
    (hlimit : position + Kind.span (.tableArray (list.map table)) (.tableArray schema count)
      < slotLimit)
    (h : list.findSome? fault = some cause) :
    contents position values [⟨name, .tableArray schema count⟩] = .error cause := by
  rw [Kind.span, ← length_le_sum_span, List.length_map] at hlimit
  have hgap := padding_le position
  have hnumber : slotNumber (list.map table).length = .ok _ :=
    slotNumber_of_lt (by rw [List.length_map]; omega)
  have htables := @writeTables_eq_error _ table fault list cause
    (fun start nested => Schema.write start nested schema) (fun nested => Schema.span nested schema)
    0 (position + padding position + 4 + 4 * (list.map table).length)
    (fun a ha e he start => Schema.write_eq_error (hfault a ha e he))
    (fun a ha hnone start => Schema.write_of_span schema start (hshaped a ha hnone))
    (by rw [List.length_map]; omega) h
  simp only [contents, inlineCells, writeTails, get_eq_ok.mpr hvalue, inlineCell, Kind.writeTail,
    hnumber, htables, bind, Except.bind]

end Tables

end LedgerTx.Layout
