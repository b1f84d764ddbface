import LedgerTx.Proofs.Layout.Shape

/-!
# Selection

The values under the names of a schema, in schema order, are exact; they are
shaped and have the raw form that the original values have.  Extra names,
and the order of the original values, leave no trace.
-/

namespace LedgerTx.Layout

/-! ## What depends on the values of the fields only -/

theorem ShapedFields.congr {values others : FieldSet} :
    {fields : List FieldSpec} → (∀ name ∈ fieldNames fields, values.get? name = others.get? name) →
      ShapedFields values fields → ShapedFields others fields
  | [], _, _ => trivial
  | ⟨name, _⟩ :: _, h, ⟨⟨value, hvalue, hshaped⟩, hrest⟩ =>
      ⟨⟨value, h name List.mem_cons_self ▸ hvalue, hshaped⟩,
        hrest.congr fun other hother => h other (List.mem_cons_of_mem _ hother)⟩

theorem DeclaredFields.congr {scope : Scope} {values others : FieldSet} :
    {fields : List FieldSpec} → (∀ name ∈ fieldNames fields, values.get? name = others.get? name) →
      DeclaredFields scope values fields → DeclaredFields scope others fields
  | [], _, _ => trivial
  | ⟨name, _⟩ :: _, h, ⟨hdeclared, hrest⟩ =>
      ⟨fun value hvalue => hdeclared value (h name List.mem_cons_self ▸ hvalue),
        hrest.congr fun other hother => h other (List.mem_cons_of_mem _ hother)⟩

theorem rawFields.congr {values others : FieldSet} :
    {fields : List FieldSpec} → (∀ name ∈ fieldNames fields, values.get? name = others.get? name) →
      rawFields values fields = rawFields others fields
  | [], _ => rfl
  | ⟨name, kind⟩ :: rest, h => by
      rw [rawFields, rawFields, h name List.mem_cons_self,
        rawFields.congr fun other hother => h other (List.mem_cons_of_mem _ hother)]

/-! ## Selected values -/

theorem get?_selectFields_of_not_mem {values : FieldSet} {name : String} :
    {fields : List FieldSpec} → name ∉ fieldNames fields →
      (selectFields values fields).get? name = none
  | [], _ => rfl
  | ⟨key, kind⟩ :: rest, h => by
      have hne : name ≠ key := fun heq => h (heq ▸ List.mem_cons_self)
      have hrest : name ∉ fieldNames rest := fun hmem => h (List.mem_cons_of_mem _ hmem)
      rw [selectFields]
      split
      · rw [FieldSet.get?_cons_ne hne]
        exact get?_selectFields_of_not_mem hrest
      · exact get?_selectFields_of_not_mem hrest

/-- A selected value is the original one without extra names in its nested tables. -/
theorem get?_selectFields {values : FieldSet} {name : String} {kind : Kind} :
    {fields : List FieldSpec} → distinctFields fields = true → ⟨name, kind⟩ ∈ fields →
      (selectFields values fields).get? name = (values.get? name).map fun v => Kind.select v kind
  | ⟨key, other⟩ :: rest, hdistinct, h => by
      obtain ⟨⟨hkey, -⟩, hdistinctRest⟩ := distinctFields_cons hdistinct
      rw [selectFields]
      rcases List.mem_cons.mp h with heq | hrest
      · cases heq
        split
        · rename_i value hvalue
          rw [FieldSet.get?_cons_self, hvalue]
          rfl
        · rename_i hnone
          rw [hnone]
          exact get?_selectFields_of_not_mem hkey
      · have hne : name ≠ key := by
          rintro rfl
          exact hkey (List.mem_map.mpr ⟨_, hrest, rfl⟩)
        split
        · rw [FieldSet.get?_cons_ne hne]
          exact get?_selectFields hdistinctRest hrest
        · exact get?_selectFields hdistinctRest hrest

mutual

theorem Schema.select_exact {values : FieldSet} :
    (schema : Schema) → Schema.Shaped values schema →
      Schema.Exact (Schema.select values schema) schema
  | ⟨_, fields⟩, hshaped => selectFields_exact fields hshaped

theorem selectFields_exact {values : FieldSet} :
    (fields : List FieldSpec) → ShapedFields values fields →
      ExactFields (selectFields values fields) fields
  | [], _ => rfl
  | ⟨name, kind⟩ :: rest, ⟨⟨value, hvalue, hshaped⟩, hrest⟩ => by
      refine ⟨Kind.select value kind, selectFields values rest, ?_,
        Kind.select_exact kind hshaped, selectFields_exact rest hrest⟩
      simp only [selectFields, hvalue]

theorem Kind.select_exact {value : Value} :
    (kind : Kind) → Kind.Shaped value kind → Kind.Exact (Kind.select value kind) kind
  | .scalar _, _ => trivial
  | .array _, _ => trivial
  | .vector _, _ => trivial
  | .table schema, ⟨nested, hnested, hshaped⟩ => by
      subst hnested
      rintro _ ⟨⟩
      exact Schema.select_exact schema hshaped
  | .tableArray schema _, ⟨tables, htables, hshaped⟩ => by
      subst htables
      rintro _ ⟨⟩ table hmem
      obtain ⟨nested, hnested, rfl⟩ := List.mem_map.mp hmem
      exact Schema.select_exact schema (hshaped nested hnested)

end

mutual

theorem Schema.select_shaped {values : FieldSet} :
    (schema : Schema) → schema.distinct = true → Schema.Shaped values schema →
      Schema.Shaped (Schema.select values schema) schema
  | ⟨_, fields⟩, hdistinct, hshaped => selectFields_shaped fields hdistinct hshaped

theorem selectFields_shaped {values : FieldSet} :
    (fields : List FieldSpec) → distinctFields fields = true → ShapedFields values fields →
      ShapedFields (selectFields values fields) fields
  | [], _, _ => trivial
  | ⟨name, kind⟩ :: rest, hdistinct, ⟨⟨value, hvalue, hshaped⟩, hrest⟩ => by
      obtain ⟨⟨hname, hkind⟩, hdistinctRest⟩ := distinctFields_cons hdistinct
      simp only [selectFields, hvalue]
      refine ⟨⟨_, FieldSet.get?_cons_self _ _ _, Kind.select_shaped kind hkind hshaped⟩, ?_⟩
      refine ShapedFields.congr (fun other hother => ?_)
        (selectFields_shaped rest hdistinctRest hrest)
      rw [FieldSet.get?_cons_ne]
      rintro rfl
      exact hname hother

theorem Kind.select_shaped {value : Value} :
    (kind : Kind) → kind.distinct = true → Kind.Shaped value kind →
      Kind.Shaped (Kind.select value kind) kind
  | .scalar _, _, hshaped => hshaped
  | .array _, _, hshaped => hshaped
  | .vector _, _, hshaped => hshaped
  | .table schema, hdistinct, ⟨nested, hnested, hshaped⟩ => by
      subst hnested
      exact ⟨_, rfl, Schema.select_shaped schema hdistinct hshaped⟩
  | .tableArray schema _, hdistinct, ⟨tables, htables, hshaped⟩ => by
      subst htables
      refine ⟨_, rfl, fun table hmem => ?_⟩
      obtain ⟨nested, hnested, rfl⟩ := List.mem_map.mp hmem
      exact Schema.select_shaped schema hdistinct (hshaped nested hnested)

end

mutual

theorem Schema.raw_select {values : FieldSet} :
    (schema : Schema) → schema.distinct = true →
      Schema.raw (Schema.select values schema) schema = Schema.raw values schema
  | ⟨_, fields⟩, hdistinct => rawFields_select fields hdistinct

theorem rawFields_select {values : FieldSet} :
    (fields : List FieldSpec) → distinctFields fields = true →
      rawFields (selectFields values fields) fields = rawFields values fields
  | [], _ => rfl
  | ⟨name, kind⟩ :: rest, hdistinct => by
      obtain ⟨⟨hname, hkind⟩, hdistinctRest⟩ := distinctFields_cons hdistinct
      have hlater : rawFields (selectFields values (⟨name, kind⟩ :: rest)) rest
          = rawFields (selectFields values rest) rest := by
        apply rawFields.congr
        intro other hother
        have hne : other ≠ name := by
          rintro rfl
          exact hname hother
        rw [selectFields]
        split
        · rw [FieldSet.get?_cons_ne hne]
        · rfl
      rw [rawFields, rawFields, hlater, rawFields_select rest hdistinctRest,
        get?_selectFields hdistinct List.mem_cons_self]
      cases values.get? name with
      | none => rfl
      | some value =>
          simp only [Option.map_some, Kind.raw_select kind hkind]

theorem Kind.raw_select {value : Value} :
    (kind : Kind) → kind.distinct = true → Kind.raw (Kind.select value kind) kind = Kind.raw value kind
  | .scalar _, _ => rfl
  | .array _, _ => rfl
  | .vector _, _ => rfl
  | .table schema, hdistinct => by
      cases value with
      | table nested => exact Schema.raw_select schema hdistinct
      | _ => rfl
  | .tableArray schema _, hdistinct => by
      cases value with
      | tableArray tables =>
          simp only [Kind.select, Kind.raw, List.flatMap_map]
          congr 1
          funext nested
          exact Schema.raw_select schema hdistinct
      | _ => rfl

end

end LedgerTx.Layout
