import LedgerTx.Proofs.Layout.Parse
import LedgerTx.Proofs.Layout.Select
import LedgerTx.Proofs.Layout.Size

/-!
# Values that fit fields

Values fit fields when each field has a value of its kind, as declared by
the scalars of the values.  For well-formed fields these are the values that
go through the offset table into the flat form, and what is read from a flat
form; other names, and the order of the names, do not matter.
-/

namespace LedgerTx.Layout

/-! ## Exact values are selected as they are -/

theorem selectFields.congr {values others : FieldSet} :
    {fields : List FieldSpec} → (∀ name ∈ fieldNames fields, values.get? name = others.get? name) →
      selectFields values fields = selectFields others fields
  | [], _ => rfl
  | ⟨name, _⟩ :: _, h => by
      rw [selectFields, selectFields, h name List.mem_cons_self,
        selectFields.congr fun other hother => h other (List.mem_cons_of_mem _ hother)]

mutual

theorem Schema.select_of_exact {values : FieldSet} :
    (schema : Schema) → schema.distinct = true → Schema.Exact values schema →
      Schema.select values schema = values
  | ⟨_, fields⟩, hdistinct, hexact => selectFields_of_exact fields hdistinct hexact

theorem selectFields_of_exact {values : FieldSet} :
    (fields : List FieldSpec) → distinctFields fields = true → ExactFields values fields →
      selectFields values fields = values
  | [], _, hexact => hexact.symm
  | ⟨name, kind⟩ :: rest, hdistinct, ⟨value, others, hvalues, hexact, hexactRest⟩ => by
      obtain ⟨⟨hname, hkind⟩, hdistinctRest⟩ := distinctFields_cons hdistinct
      have hcongr : selectFields ((name, value) :: others) rest = selectFields others rest := by
        refine selectFields.congr fun other hother => FieldSet.get?_cons_ne ?_ value others
        rintro rfl
        exact hname hother
      subst hvalues
      simp only [selectFields, FieldSet.get?_cons_self, Kind.select_of_exact kind hkind hexact,
        hcongr, selectFields_of_exact rest hdistinctRest hexactRest]

theorem Kind.select_of_exact {value : Value} :
    (kind : Kind) → kind.distinct = true → Kind.Exact value kind → Kind.select value kind = value
  | .scalar _, _, _ => rfl
  | .array _, _, _ => rfl
  | .vector _, _, _ => rfl
  | .table schema, hdistinct, hexact => by
      cases value with
      | table nested =>
          exact congrArg Value.table (Schema.select_of_exact schema hdistinct (hexact nested rfl))
      | _ => rfl
  | .tableArray schema _, hdistinct, hexact => by
      cases value with
      | tableArray tables =>
          have hsame : tables.map (fun nested => Schema.select nested schema) = tables.map id :=
            List.map_congr_left fun nested hnested =>
              Schema.select_of_exact schema hdistinct (hexact tables rfl nested hnested)
          exact congrArg Value.tableArray (hsame.trans (List.map_id tables))
      | _ => rfl

end

/-! ## Fitting values -/

/-- Values that have nothing beyond the schema in the nested tables of the fields. -/
def Nested (values : FieldSet) (fields : List FieldSpec) : Prop :=
  ∀ name kind, ⟨name, kind⟩ ∈ fields → ∀ value, values.get? name = some value →
    Kind.Exact value kind

/-- Values that have, for each field, one of its kind, with the declared lengths and numbers. -/
def Fits (values : FieldSet) (fields : List FieldSpec) : Prop :=
  ∀ name kind, ⟨name, kind⟩ ∈ fields → ∃ value, values.get? name = some value
    ∧ Kind.Exact value kind ∧ Kind.Shaped value kind ∧ Kind.Declared [values] value kind

def Same (values others : FieldSet) (fields : List FieldSpec) : Prop :=
  ∀ name ∈ fieldNames fields, values.get? name = others.get? name

theorem mem_fieldNames {name : String} {kind : Kind} {fields : List FieldSpec}
    (h : ⟨name, kind⟩ ∈ fields) : name ∈ fieldNames fields :=
  List.mem_map.mpr ⟨_, h, rfl⟩

theorem ShapedFields.of_forall {values : FieldSet} :
    {fields : List FieldSpec} → (∀ name kind, ⟨name, kind⟩ ∈ fields →
      ∃ value, values.get? name = some value ∧ Kind.Shaped value kind) → ShapedFields values fields
  | [], _ => trivial
  | ⟨name, kind⟩ :: _, h => ⟨h name kind List.mem_cons_self,
      ShapedFields.of_forall fun other kind' hother => h other kind' (List.mem_cons_of_mem _ hother)⟩

theorem DeclaredFields.of_forall {scope : Scope} {values : FieldSet} :
    {fields : List FieldSpec} → (∀ name kind, ⟨name, kind⟩ ∈ fields →
      ∀ value, values.get? name = some value → Kind.Declared scope value kind) →
      DeclaredFields scope values fields
  | [], _ => trivial
  | ⟨name, kind⟩ :: _, h => ⟨h name kind List.mem_cons_self,
      DeclaredFields.of_forall fun other kind' hother =>
        h other kind' (List.mem_cons_of_mem _ hother)⟩

theorem ShapedFields.forall {values : FieldSet} {name : String} {kind : Kind} :
    {fields : List FieldSpec} → ShapedFields values fields → ⟨name, kind⟩ ∈ fields →
      ∃ value, values.get? name = some value ∧ Kind.Shaped value kind
  | ⟨_, _⟩ :: _, ⟨hhead, hrest⟩, hmem => by
      rcases List.mem_cons.mp hmem with heq | hlater
      · cases heq
        exact hhead
      · exact hrest.forall hlater

theorem DeclaredFields.forall {scope : Scope} {values : FieldSet} {name : String} {kind : Kind}
    {value : Value} (hvalue : values.get? name = some value) :
    {fields : List FieldSpec} → DeclaredFields scope values fields → ⟨name, kind⟩ ∈ fields →
      Kind.Declared scope value kind
  | ⟨_, _⟩ :: _, ⟨hhead, hrest⟩, hmem => by
      rcases List.mem_cons.mp hmem with heq | hlater
      · cases heq
        exact hhead value hvalue
      · exact hrest.forall hvalue hlater

theorem distinctFields.of_mem {name : String} {kind : Kind} :
    {fields : List FieldSpec} → distinctFields fields = true → ⟨name, kind⟩ ∈ fields →
      kind.distinct = true
  | ⟨_, _⟩ :: _, hdistinct, hmem => by
      rcases List.mem_cons.mp hmem with heq | hlater
      · cases heq
        exact (distinctFields_cons hdistinct).1.2
      · exact distinctFields.of_mem (distinctFields_cons hdistinct).2 hlater

theorem ExactFields.nested {values : FieldSet} :
    {fields : List FieldSpec} → distinctFields fields = true → ExactFields values fields →
      Nested values fields
  | ⟨key, _⟩ :: _, hdistinct, ⟨found, others, hvalues, hexact, hrest⟩, name, kind, hmem, value,
      hvalue => by
      obtain ⟨⟨hkey, -⟩, hdistinctRest⟩ := distinctFields_cons hdistinct
      subst hvalues
      rcases List.mem_cons.mp hmem with heq | hlater
      · cases heq
        rw [FieldSet.get?_cons_self] at hvalue
        cases hvalue
        exact hexact
      · rw [FieldSet.get?_cons_ne] at hvalue
        · exact hrest.nested hdistinctRest name kind hlater value hvalue
        · rintro rfl
          exact hkey (mem_fieldNames hlater)

theorem Fits.of_parts {values : FieldSet} {fields : List FieldSpec} (hnested : Nested values fields)
    (hshaped : ShapedFields values fields) (hdeclared : DeclaredFields [values] values fields) :
    Fits values fields := by
  intro name kind hmem
  obtain ⟨value, hvalue, hkind⟩ := hshaped.forall hmem
  exact ⟨value, hvalue, hnested name kind hmem value hvalue, hkind, hdeclared.forall hvalue hmem⟩

theorem Fits.mono {values : FieldSet} {fields others : List FieldSpec} (h : Fits values fields)
    (hsubset : others ⊆ fields) : Fits values others :=
  fun name kind hmem => h name kind (hsubset hmem)

theorem Fits.nested {values : FieldSet} {fields : List FieldSpec} (h : Fits values fields) :
    Nested values fields := by
  intro name kind hmem value hvalue
  obtain ⟨found, hfound, hexact, -⟩ := h name kind hmem
  rw [hvalue] at hfound
  cases hfound
  exact hexact

theorem Fits.shaped {values : FieldSet} {fields : List FieldSpec} (h : Fits values fields) :
    ShapedFields values fields := by
  apply ShapedFields.of_forall
  intro name kind hmem
  obtain ⟨value, hvalue, -, hshaped, -⟩ := h name kind hmem
  exact ⟨value, hvalue, hshaped⟩

theorem Fits.declared {values : FieldSet} {fields : List FieldSpec} (h : Fits values fields) :
    DeclaredFields [values] values fields := by
  apply DeclaredFields.of_forall
  intro name kind hmem value hvalue
  obtain ⟨found, hfound, -, -, hdeclared⟩ := h name kind hmem
  rw [hvalue] at hfound
  cases hfound
  exact hdeclared

@[simp] theorem Fits.nil (values : FieldSet) : Fits values [] :=
  fun _ _ hmem => nomatch hmem

@[simp] theorem fits_cons {values : FieldSet} {name : String} {kind : Kind} {rest : List FieldSpec} :
    Fits values (⟨name, kind⟩ :: rest) ↔ (∃ value, values.get? name = some value
      ∧ Kind.Exact value kind ∧ Kind.Shaped value kind ∧ Kind.Declared [values] value kind)
      ∧ Fits values rest := by
  constructor
  · intro h
    exact ⟨h name kind List.mem_cons_self, h.mono (List.subset_cons_self _ _)⟩
  · rintro ⟨hhead, hrest⟩ other kind' hmem
    rcases List.mem_cons.mp hmem with heq | hlater
    · cases heq
      exact hhead
    · exact hrest other kind' hlater

theorem fits_append {values : FieldSet} {fields others : List FieldSpec} :
    Fits values (fields ++ others) ↔ Fits values fields ∧ Fits values others := by
  constructor
  · intro h
    exact ⟨h.mono (List.subset_append_left _ _), h.mono (List.subset_append_right _ _)⟩
  · rintro ⟨hleft, hright⟩ name kind hmem
    rcases List.mem_append.mp hmem with hl | hr
    · exact hleft name kind hl
    · exact hright name kind hr

@[simp] theorem same_cons {values others : FieldSet} {name : String} {kind : Kind}
    {rest : List FieldSpec} : Same values others (⟨name, kind⟩ :: rest)
      ↔ values.get? name = others.get? name ∧ Same values others rest :=
  List.forall_mem_cons

@[simp] theorem Same.nil (values others : FieldSet) : Same values others [] :=
  fun _ hname => nomatch hname

@[simp] theorem lookup_singleton_eq_ok {values : FieldSet} {name : String} {n : UInt64} :
    Scope.lookup [values] name = .ok n ↔ values.get? name = some (.scalar n) := by
  unfold Scope.lookup
  split <;> simp_all [Scope.lookup]

theorem Fits.length_lt {values : FieldSet} {fields : List FieldSpec} (h : Fits values fields)
    {name size : String} {width : Width} {bias : Nat} {bytes : Bytes}
    (hsize : ⟨size, .scalar width⟩ ∈ fields) (hvector : ⟨name, .vector (.named size bias)⟩ ∈ fields)
    (hvalue : values.get? name = some (.vector bytes)) :
    bytes.length + bias < 256 ^ width.bytes := by
  obtain ⟨_, hscalar, -, ⟨n, rfl, hn⟩, -⟩ := h _ _ hsize
  obtain ⟨_, hfound, -, -, hdeclared⟩ := h _ _ hvector
  cases hvalue.symm.trans hfound
  obtain ⟨m, hm, hlength⟩ := hdeclared bytes rfl
  cases hscalar.symm.trans (lookup_singleton_eq_ok.mp hm)
  exact hlength ▸ hn

/-- Whether values fit depends on the values that the fields name and look up. -/
theorem Fits.congr {values others : FieldSet} {fields : List FieldSpec} (h : Fits values fields)
    (hsame : Same values others fields)
    (hlookup : ∀ name ∈ mentionedFields fields, values.get? name = others.get? name) :
    Fits others fields := by
  apply Fits.of_parts
  · intro name kind hmem value hvalue
    exact h.nested name kind hmem value (hsame name (mem_fieldNames hmem) ▸ hvalue)
  · exact h.shaped.congr hsame
  · refine DeclaredFields.congr hsame (DeclaredFields.agree fields h.shaped ?_ h.declared)
    intro name hname
    exact Scope.lookup_cons_eq (hlookup name hname)

theorem Nested.same_select {values : FieldSet} {fields : List FieldSpec}
    (hdistinct : distinctFields fields = true) (h : Nested values fields) :
    Same values (selectFields values fields) fields := by
  intro name hname
  obtain ⟨⟨name, kind⟩, hmem, rfl⟩ := List.mem_map.mp hname
  rw [get?_selectFields hdistinct hmem]
  cases hvalue : values.get? name with
  | none => rfl
  | some value =>
      have hkind := distinctFields.of_mem hdistinct hmem
      rw [Option.map_some, Kind.select_of_exact kind hkind (h name kind hmem value hvalue)]

theorem Fits.replace {values others : FieldSet} {fields : List FieldSpec} (name : String)
    (h : Fits values fields) (hunused : name ∉ mentionedFields fields)
    (hclosed : ∀ other ∈ mentionedFields fields, other ∈ fieldNames fields)
    (hothers : ∀ other ∈ fieldNames fields, other ≠ name → values.get? other = others.get? other)
    (hvalue : ∀ kind, ⟨name, kind⟩ ∈ fields → ∃ value, others.get? name = some value
      ∧ Kind.Exact value kind ∧ Kind.Shaped value kind ∧ ∀ scope, Kind.Declared scope value kind) :
    Fits others fields := by
  have hagree : Scope.Agree (mentionedFields fields) [values] [others] := by
    intro other hother
    refine Scope.lookup_cons_eq (hothers other (hclosed other hother) ?_)
    rintro rfl
    exact hunused hother
  have hdeclared := DeclaredFields.agree fields h.shaped hagree h.declared
  intro other kind hmem
  by_cases heq : other = name
  · subst heq
    obtain ⟨value, hsome, hexact, hshaped, hscope⟩ := hvalue kind hmem
    exact ⟨value, hsome, hexact, hshaped, hscope _⟩
  · obtain ⟨value, hsome, hexact, hshaped, -⟩ := h other kind hmem
    refine ⟨value, hothers other (mem_fieldNames hmem) heq ▸ hsome, hexact, hshaped, ?_⟩
    exact hdeclared.forall hsome hmem

/-! ## Fields of fixed size -/

mutual

def Schema.fixed : Schema → Bool
  | ⟨_, fields⟩ => fixedFields fields

def fixedFields : List FieldSpec → Bool
  | [] => true
  | ⟨_, kind⟩ :: rest => Kind.fixed kind && fixedFields rest

def Kind.fixed : Kind → Bool
  | .scalar _ | .array _ => true
  | .vector _ | .tableArray _ _ => false
  | .table schema => Schema.fixed schema

end

mutual

theorem Schema.length_raw_of_fixed {values : FieldSet} :
    (schema : Schema) → schema.fixed = true → Schema.Shaped values schema →
      (Schema.raw values schema).length = schema.least
  | ⟨_, fields⟩, hfixed, hshaped => length_rawFields_of_fixed fields hfixed hshaped

theorem length_rawFields_of_fixed {values : FieldSet} :
    (fields : List FieldSpec) → fixedFields fields = true → ShapedFields values fields →
      (rawFields values fields).length = leastFields fields
  | [], _, _ => rfl
  | ⟨_, kind⟩ :: rest, hfixed, ⟨⟨_, hvalue, hshaped⟩, hrest⟩ => by
      obtain ⟨hkind, hfixedRest⟩ := Bool.and_eq_true_iff.mp hfixed
      simp only [rawFields, hvalue, leastFields, List.length_append,
        Kind.length_raw_of_fixed kind hkind hshaped,
        length_rawFields_of_fixed rest hfixedRest hrest]

theorem Kind.length_raw_of_fixed {value : Value} :
    (kind : Kind) → kind.fixed = true → Kind.Shaped value kind →
      (Kind.raw value kind).length = kind.least
  | .scalar _, _, ⟨_, hn, _⟩ => by
      simp [hn, Kind.raw, Kind.least]
  | .array _, _, ⟨_, hbytes, hsize⟩ => by
      simp [hbytes, Kind.raw, Kind.least, hsize]
  | .table schema, hfixed, ⟨_, hnested, hshaped⟩ => by
      simp only [hnested, Kind.raw, Kind.least]
      exact Schema.length_raw_of_fixed schema hfixed hshaped

end

theorem length_rawFields_eq {values others : FieldSet} :
    {fields : List FieldSpec} → ShapedFields values fields → ShapedFields others fields →
      (∀ name kind, ⟨name, kind⟩ ∈ fields →
        kind.fixed = true ∨ values.get? name = others.get? name) →
      (rawFields values fields).length = (rawFields others fields).length
  | [], _, _, _ => rfl
  | ⟨name, kind⟩ :: rest, ⟨⟨_, hvalue, hshaped⟩, hrest⟩, ⟨⟨_, hother, hshaped'⟩, hrest'⟩, h => by
      have hlater := length_rawFields_eq hrest hrest' fun other kind' hmem =>
        h other kind' (List.mem_cons_of_mem _ hmem)
      simp only [rawFields, hvalue, hother, List.length_append, hlater, Nat.add_right_cancel_iff]
      rcases h name kind List.mem_cons_self with hfixed | hsame
      · rw [Kind.length_raw_of_fixed kind hfixed hshaped,
          Kind.length_raw_of_fixed kind hfixed hshaped']
      · rw [hvalue, hother] at hsame
        cases hsame
        rfl

theorem rawFields_append {values : FieldSet} :
    (fields : List FieldSpec) → {others : List FieldSpec} →
      rawFields values (fields ++ others) = rawFields values fields ++ rawFields values others
  | [], _ => rfl
  | ⟨_, _⟩ :: rest, _ => by
      rw [List.cons_append, rawFields, rawFields, rawFields_append rest, List.append_assoc]

/-! ## Through the offset table into the flat form -/

/--
The flat form of a written offset table is the raw form of its values.
There is one when the lengths and numbers are as declared.
-/
theorem flatten_eq_ok {fields : List FieldSpec} {values : FieldSet} {table : Bytes}
    (hdistinct : distinctFields fields = true) (hsolid : solidFields fields = true)
    (htable : encode fields values = .ok table) (hlimit : table.length < positionLimit)
    {bytes : Bytes} :
    flatten fields table = .ok bytes
      ↔ DeclaredFields [selectFields values fields] (selectFields values fields) fields
        ∧ bytes = rawFields values fields := by
  obtain ⟨hshaped, -⟩ := Schema.write_reach ⟨"", fields⟩ htable
  have hselected : Schema.Shaped (selectFields values fields) ⟨"", fields⟩ :=
    selectFields_shaped fields hdistinct hshaped
  have hraw : Schema.raw (selectFields values fields) ⟨"", fields⟩ = rawFields values fields :=
    rawFields_select fields hdistinct
  rw [flatten, decode_encode hdistinct hsolid htable hlimit]
  exact (Schema.flat_eq_ok [] _ bytes ⟨"", fields⟩).trans
    (by rw [hraw, and_iff_right hselected]; rfl)

/-- The raw form of values is read back; only what runs to the end must end there. -/
theorem parse_rawFields {fields : List FieldSpec} {values : FieldSet} {post : Bytes}
    (hdistinct : distinctFields fields = true) (hscoped : scopedFields fields = true)
    (hend : boundedFields fields = true ∨ post = [] ∧ closingFields fields = true)
    (hshaped : ShapedFields values fields)
    (hdeclared : DeclaredFields [selectFields values fields] (selectFields values fields) fields)
    (hlimit : (rawFields values fields).length < positionLimit) :
    parse fields (rawFields values fields ++ post)
      = .ok ⟨selectFields values fields, (rawFields values fields).length⟩ := by
  have hraw : Schema.raw (selectFields values fields) ⟨"", fields⟩ = rawFields values fields :=
    rawFields_select fields hdistinct
  have hread := @Schema.parse_raw [] (selectFields values fields) 0 post ⟨"", fields⟩
    (selectFields_shaped fields hdistinct hshaped) hdeclared (selectFields_exact fields hshaped)
    hdistinct hscoped hend (by rwa [hraw, Nat.zero_add])
  rw [hraw] at hread
  rw [parse, hread, Nat.zero_add]
  rfl

theorem rawFields_of_parse {fields : List FieldSpec} {buffer : Bytes} {decoded : Decoded}
    (hdistinct : distinctFields fields = true) (hscoped : scopedFields fields = true)
    (h : parse fields buffer = .ok decoded) :
    (ExactFields decoded.fields fields ∧ ShapedFields decoded.fields fields
        ∧ DeclaredFields [decoded.fields] decoded.fields fields)
      ∧ decoded.extent = (rawFields decoded.fields fields).length
      ∧ buffer = rawFields decoded.fields fields ++ buffer.drop decoded.extent := by
  obtain ⟨⟨values, cursor⟩, hvalues, h⟩ := bind_eq_ok.mp h
  cases h
  obtain ⟨hgood, hpasses⟩ := Schema.parse_passes ⟨"", fields⟩ hdistinct hscoped hvalues
  have hextent : cursor.position = (rawFields values fields).length := by
    rw [hpasses.position, Nat.zero_add]
    rfl
  have hrest : buffer = rawFields values fields ++ cursor.rest := hpasses.rest
  refine ⟨hgood, hextent, ?_⟩
  rw [hextent, hrest, List.drop_left]

/-! ## Well-formed fields -/

/-- Fields that every form can be written and read with. -/
structure WellFormed (fields : List FieldSpec) : Prop where
  distinct : distinctFields fields = true
  solid : solidFields fields = true
  ordered : scopedFields fields = true
  closing : closingFields fields = true
  closed : ∀ name ∈ mentionedFields fields, name ∈ fieldNames fields
  dense : denseFields 8 fields = true
  slack : slackFields fields < 2 ^ 31
  reach : Schema.reach ⟨"", fields⟩ < positionLimit

instance (fields : List FieldSpec) : Decidable (WellFormed fields) :=
  decidable_of_iff (((distinctFields fields = true ∧ solidFields fields = true)
      ∧ scopedFields fields = true ∧ closingFields fields = true)
      ∧ (∀ name ∈ mentionedFields fields, name ∈ fieldNames fields)
      ∧ denseFields 8 fields = true ∧ slackFields fields < 2 ^ 31
      ∧ Schema.reach ⟨"", fields⟩ < positionLimit)
    ⟨fun ⟨⟨⟨h1, h2⟩, h3, h4⟩, h5, h6, h7, h8⟩ => ⟨h1, h2, h3, h4, h5, h6, h7, h8⟩,
      fun ⟨h1, h2, h3, h4, h5, h6, h7, h8⟩ => ⟨⟨⟨h1, h2⟩, h3, h4⟩, h5, h6, h7, h8⟩⟩

namespace WellFormed

variable {fields : List FieldSpec} {values others : FieldSet}

theorem fits_congr (hwf : WellFormed fields) (hsame : Same values others fields)
    (h : Fits values fields) : Fits others fields :=
  h.congr hsame fun name hname => hsame name (hwf.closed name hname)

theorem fits_of_flatten (hwf : WellFormed fields) {table bytes : Bytes}
    (hnested : Nested values fields) (htable : encode fields values = .ok table)
    (hbytes : flatten fields table = .ok bytes) :
    Fits values fields ∧ bytes = rawFields values fields := by
  obtain ⟨hshaped, hlength⟩ := Schema.write_reach ⟨"", fields⟩ htable
  have hlimit := Nat.lt_of_le_of_lt hlength hwf.reach
  obtain ⟨hdeclared, rfl⟩ := (flatten_eq_ok hwf.distinct hwf.solid htable hlimit).mp hbytes
  have hsame := hnested.same_select hwf.distinct
  have hexact := selectFields_exact fields hshaped
  have hfits := Fits.of_parts (hexact.nested hwf.distinct)
    (selectFields_shaped fields hwf.distinct hshaped) hdeclared
  exact ⟨hwf.fits_congr (fun name hname => (hsame name hname).symm) hfits, rfl⟩

theorem flatten_of_encode (hwf : WellFormed fields) (hfits : Fits values fields) {table : Bytes}
    (htable : encode fields values = .ok table) :
    flatten fields table = .ok (rawFields values fields) := by
  obtain ⟨-, hreach⟩ := Schema.write_reach ⟨"", fields⟩ htable
  have hselected := hwf.fits_congr (hfits.nested.same_select hwf.distinct) hfits
  exact (flatten_eq_ok hwf.distinct hwf.solid htable (Nat.lt_of_le_of_lt hreach hwf.reach)).mpr
    ⟨hselected.declared, rfl⟩

theorem flatten_of_fits (hwf : WellFormed fields) (hfits : Fits values fields) {factor : Nat}
    (hdense : denseFields factor fields = true)
    (hlimit : factor * (rawFields values fields).length + slackFields fields < slotLimit) :
    ∃ table, encode fields values = .ok table
      ∧ flatten fields table = .ok (rawFields values fields) := by
  obtain ⟨table, htable⟩ := encode_of_shaped hdense hfits.shaped hlimit
  exact ⟨table, htable, hwf.flatten_of_encode hfits htable⟩

theorem parse_of_fits (hwf : WellFormed fields) (hfits : Fits values fields) {post : Bytes}
    (hend : boundedFields fields = true ∨ post = [])
    (hlimit : (rawFields values fields).length < positionLimit) :
    parse fields (rawFields values fields ++ post)
      = .ok ⟨selectFields values fields, (rawFields values fields).length⟩ := by
  have hselected := hwf.fits_congr (hfits.nested.same_select hwf.distinct) hfits
  exact parse_rawFields hwf.distinct hwf.ordered (hend.imp_right fun hpost => ⟨hpost, hwf.closing⟩)
    hfits.shaped hselected.declared hlimit

theorem fits_of_parse (hwf : WellFormed fields) {buffer : Bytes} {decoded : Decoded}
    (h : parse fields buffer = .ok decoded) :
    (ExactFields decoded.fields fields ∧ Fits decoded.fields fields)
      ∧ decoded.extent = (rawFields decoded.fields fields).length
      ∧ buffer = rawFields decoded.fields fields ++ buffer.drop decoded.extent := by
  obtain ⟨⟨hexact, hshaped, hdeclared⟩, hraw⟩ := rawFields_of_parse hwf.distinct hwf.ordered h
  exact ⟨⟨hexact, Fits.of_parts (hexact.nested hwf.distinct) hshaped hdeclared⟩, hraw⟩

theorem same_of_raw (hwf : WellFormed fields) (h : Fits values fields) (hothers : Fits others fields)
    (hlimit : (rawFields values fields).length < positionLimit)
    (hraw : rawFields values fields = rawFields others fields) : Same values others fields := by
  have hparse := hwf.parse_of_fits h (.inr rfl) hlimit
  have hparse' := hwf.parse_of_fits hothers (.inr rfl) (hraw ▸ hlimit)
  have hselect : selectFields values fields = selectFields others fields := by
    rw [hraw, hparse'] at hparse
    exact congrArg Decoded.fields (Except.ok.inj hparse).symm
  intro name hname
  rw [h.nested.same_select hwf.distinct name hname, hselect,
    ← hothers.nested.same_select hwf.distinct name hname]

end WellFormed

end LedgerTx.Layout
