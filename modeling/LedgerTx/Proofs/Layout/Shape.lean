import LedgerTx.Proofs.Layout.FieldSet

/-!
# The shape of values

What it takes for values to have a flat form, apart from the form itself.
Values are shaped for a schema when every field has a value of its kind, and
declared when the scalars that tell lengths and numbers agree with the
content.  The raw form joins the contents and looks at no scope.  Values are
exact when they have the names of the schema, in order, and no others.
-/

namespace LedgerTx.Layout

/-! ## Raw form -/

mutual

def Schema.raw (values : FieldSet) : Schema → Bytes
  | ⟨_, fields⟩ => rawFields values fields

def rawFields (values : FieldSet) : List FieldSpec → Bytes
  | [] => []
  | ⟨name, kind⟩ :: rest =>
      (match values.get? name with
        | some value => Kind.raw value kind
        | none => []) ++ rawFields values rest

def Kind.raw (value : Value) : Kind → Bytes
  | .scalar width =>
      match value with
      | .scalar n => LittleEndian.encode width.bytes n.toNat
      | _ => []
  | .array _ =>
      match value with
      | .array bytes => bytes
      | _ => []
  | .vector _ =>
      match value with
      | .vector bytes => bytes
      | _ => []
  | .table schema =>
      match value with
      | .table nested => Schema.raw nested schema
      | _ => []
  | .tableArray schema _ =>
      match value with
      | .tableArray tables => tables.flatMap fun nested => Schema.raw nested schema
      | _ => []

end

/-! ## Shaped values -/

mutual

def Schema.Shaped (values : FieldSet) : Schema → Prop
  | ⟨_, fields⟩ => ShapedFields values fields

def ShapedFields (values : FieldSet) : List FieldSpec → Prop
  | [] => True
  | ⟨name, kind⟩ :: rest =>
      (∃ value, values.get? name = some value ∧ Kind.Shaped value kind) ∧ ShapedFields values rest

/-- A value of a kind: integers fit their width, arrays have their size. -/
def Kind.Shaped (value : Value) : Kind → Prop
  | .scalar width => ∃ n, value = .scalar n ∧ n.toNat < 256 ^ width.bytes
  | .array size => ∃ bytes, value = .array bytes ∧ bytes.length = size
  | .vector _ => ∃ bytes, value = .vector bytes
  | .table schema => ∃ nested, value = .table nested ∧ Schema.Shaped nested schema
  | .tableArray schema _ =>
      ∃ tables, value = .tableArray tables ∧ ∀ nested ∈ tables, Schema.Shaped nested schema

end

/-! ## Declared lengths and numbers -/

mutual

/-- The lengths and numbers of a table, its enclosing tables given, are as declared. -/
def Schema.Declared (outer : Scope) (values : FieldSet) : Schema → Prop
  | ⟨_, fields⟩ => DeclaredFields (values :: outer) values fields

/-- The lengths and numbers of fields are as declared in a scope. -/
def DeclaredFields (scope : Scope) (values : FieldSet) : List FieldSpec → Prop
  | [] => True
  | ⟨name, kind⟩ :: rest =>
      (∀ value, values.get? name = some value → Kind.Declared scope value kind)
        ∧ DeclaredFields scope values rest

def Kind.Declared (scope : Scope) (value : Value) : Kind → Prop
  | .scalar _ | .array _ => True
  | .vector length =>
      match length with
      | .named scalar bias => ∀ bytes, value = .vector bytes →
          ∃ n, scope.lookup scalar = .ok n ∧ n.toNat = bytes.length + bias
      | .rest => True
  | .table schema => ∀ nested, value = .table nested → Schema.Declared scope nested schema
  | .tableArray schema count => ∀ tables, value = .tableArray tables →
      (match count with
        | .named scalar => ∃ n, scope.lookup scalar = .ok n ∧ n.toNat = tables.length
        | .rest => True)
        ∧ ∀ nested ∈ tables, Schema.Declared scope nested schema

end

/-! ## Exact values -/

mutual

/-- A table that has the names of the schema and no others, also in nested tables. -/
def Schema.Exact (values : FieldSet) : Schema → Prop
  | ⟨_, fields⟩ => ExactFields values fields

/-- Entries that have the names of the fields, one by one. -/
def ExactFields (values : FieldSet) : List FieldSpec → Prop
  | [] => values = []
  | ⟨name, kind⟩ :: rest =>
      ∃ value others, values = (name, value) :: others ∧ Kind.Exact value kind
        ∧ ExactFields others rest

def Kind.Exact (value : Value) : Kind → Prop
  | .scalar _ | .array _ | .vector _ => True
  | .table schema => ∀ nested, value = .table nested → Schema.Exact nested schema
  | .tableArray schema _ =>
      ∀ tables, value = .tableArray tables → ∀ nested ∈ tables, Schema.Exact nested schema

end

/-! ## Selection -/

mutual

/-- The values of a table under the names of the schema, in schema order. -/
def Schema.select (values : FieldSet) : Schema → FieldSet
  | ⟨_, fields⟩ => selectFields values fields

def selectFields (values : FieldSet) : List FieldSpec → FieldSet
  | [] => []
  | ⟨name, kind⟩ :: rest =>
      match values.get? name with
      | some value => (name, Kind.select value kind) :: selectFields values rest
      | none => selectFields values rest

def Kind.select (value : Value) : Kind → Value
  | .scalar _ | .array _ | .vector _ => value
  | .table schema =>
      match value with
      | .table nested => .table (Schema.select nested schema)
      | _ => value
  | .tableArray schema _ =>
      match value with
      | .tableArray tables => .tableArray (tables.map fun nested => Schema.select nested schema)
      | _ => value

end

/-! ## Properties of schemas -/

def fieldNames (fields : List FieldSpec) : List String :=
  fields.map FieldSpec.name

mutual

/-- The names that a table looks up in the tables around it. -/
def Schema.free : Schema → List String
  | ⟨_, fields⟩ => (mentionedFields fields).filter (· ∉ fieldNames fields)

/-- The names that fields look up, in the table that they are fields of first. -/
def mentionedFields : List FieldSpec → List String
  | [] => []
  | ⟨_, kind⟩ :: rest => Kind.mentioned kind ++ mentionedFields rest

def Kind.mentioned : Kind → List String
  | .scalar _ | .array _ => []
  | .vector length =>
      match length with
      | .named scalar _ => [scalar]
      | .rest => []
  | .table schema => Schema.free schema
  | .tableArray schema count =>
      match count with
      | .named scalar => scalar :: Schema.free schema
      | .rest => Schema.free schema

end

mutual

def Schema.distinct : Schema → Bool
  | ⟨_, fields⟩ => distinctFields fields

/-- Whether the names of fields and of their nested tables differ. -/
def distinctFields : List FieldSpec → Bool
  | [] => true
  | ⟨name, kind⟩ :: rest =>
      !(fieldNames rest).contains name && Kind.distinct kind && distinctFields rest

def Kind.distinct : Kind → Bool
  | .scalar _ | .array _ | .vector _ => true
  | .table schema => Schema.distinct schema
  | .tableArray schema _ => Schema.distinct schema

end

mutual

/-- Whether every nested table takes some bytes inline. -/
def Schema.solid : Schema → Bool
  | ⟨_, fields⟩ => solidFields fields

/-- Whether the nested tables of fields take some bytes inline. -/
def solidFields : List FieldSpec → Bool
  | [] => true
  | ⟨_, kind⟩ :: rest => Kind.solid kind && solidFields rest

def Kind.solid : Kind → Bool
  | .scalar _ | .array _ | .vector _ => true
  | .table schema => 0 < schema.size && Schema.solid schema
  | .tableArray schema _ => 0 < schema.size && Schema.solid schema

end

mutual

/-- Whether the scalars that a table looks up in itself come before what they describe. -/
def Schema.scoped : Schema → Bool
  | ⟨_, fields⟩ => scopedFields fields

/-- Whether no field looks up a name of its own or of a later field. -/
def scopedFields : List FieldSpec → Bool
  | [] => true
  | ⟨name, kind⟩ :: rest =>
      (Kind.mentioned kind).all (fun scalar => !(name :: fieldNames rest).contains scalar)
        && Kind.scoped kind && scopedFields rest

def Kind.scoped : Kind → Bool
  | .scalar _ | .array _ | .vector _ => true
  | .table schema => Schema.scoped schema
  | .tableArray schema _ => Schema.scoped schema

end

mutual

/-- The fewest bytes that the flat form of a table has. -/
def Schema.least : Schema → Nat
  | ⟨_, fields⟩ => leastFields fields

def leastFields : List FieldSpec → Nat
  | [] => 0
  | ⟨_, kind⟩ :: rest => Kind.least kind + leastFields rest

def Kind.least : Kind → Nat
  | .scalar width => width.bytes
  | .array size => size
  | .vector _ => 0
  | .table schema => Schema.least schema
  | .tableArray _ _ => 0

end

mutual

def Schema.bounded : Schema → Bool
  | ⟨_, fields⟩ => boundedFields fields

/-- Whether nothing in fields runs to the end. -/
def boundedFields : List FieldSpec → Bool
  | [] => true
  | ⟨_, kind⟩ :: rest => Kind.bounded kind && boundedFields rest

def Kind.bounded : Kind → Bool
  | .scalar _ | .array _ => true
  | .vector length => length != .rest
  | .table schema => Schema.bounded schema
  | .tableArray schema count => count != .rest && Schema.bounded schema

end

mutual

def Schema.closing : Schema → Bool
  | ⟨_, fields⟩ => closingFields fields

/-- Whether only the last of fields runs to the end. -/
def closingFields : List FieldSpec → Bool
  | [] => true
  | ⟨_, kind⟩ :: rest =>
      if rest.isEmpty then Kind.closing kind else Kind.bounded kind && closingFields rest

/-- Whether only the end of a field runs to the end, in tables that take some bytes. -/
def Kind.closing : Kind → Bool
  | .scalar _ | .array _ | .vector _ => true
  | .table schema => Schema.closing schema
  | .tableArray schema count => Schema.bounded schema && (count != .rest || 0 < Schema.least schema)

end

/-! ## Names of exact and of distinct tables -/

theorem ExactFields.names : {fields : List FieldSpec} → {values : FieldSet} →
    ExactFields values fields → values.map Prod.fst = fieldNames fields
  | [], _, h => by
      cases h
      rfl
  | ⟨_, _⟩ :: rest, _, ⟨_, _, hvalues, _, hrest⟩ => by
      rw [hvalues, List.map_cons, hrest.names]
      rfl

theorem distinctFields_cons {name : String} {kind : Kind} {rest : List FieldSpec}
    (h : distinctFields (⟨name, kind⟩ :: rest) = true) :
    (name ∉ fieldNames rest ∧ kind.distinct = true) ∧ distinctFields rest = true := by
  simp only [distinctFields, Bool.and_eq_true, Bool.not_eq_true', List.contains_eq_mem,
    decide_eq_false_iff_not] at h
  exact h

theorem scopedFields_cons {name : String} {kind : Kind} {rest : List FieldSpec}
    (h : scopedFields (⟨name, kind⟩ :: rest) = true) :
    (∀ scalar ∈ kind.mentioned, scalar ∉ fieldNames (⟨name, kind⟩ :: rest))
      ∧ kind.scoped = true ∧ scopedFields rest = true := by
  simp only [scopedFields, Bool.and_eq_true, List.all_eq_true, Bool.not_eq_true',
    List.contains_eq_mem, decide_eq_false_iff_not] at h
  exact ⟨h.1.1, h.1.2, h.2⟩

theorem distinctFields.nodup : {fields : List FieldSpec} → distinctFields fields = true →
    (fieldNames fields).Nodup
  | [], _ => List.nodup_nil
  | ⟨_, _⟩ :: _, h =>
      List.nodup_cons.mpr ⟨(distinctFields_cons h).1.1, distinctFields.nodup (distinctFields_cons h).2⟩

theorem ExactFields.get?_of_mem {fields : List FieldSpec} {values : FieldSet} {name : String}
    {value : Value} (hexact : ExactFields values fields) (hdistinct : distinctFields fields = true)
    (h : (name, value) ∈ values) : values.get? name = some value :=
  FieldSet.get?_of_mem (hexact.names ▸ distinctFields.nodup hdistinct) h

theorem ExactFields.get?_eq_none {fields : List FieldSpec} {values : FieldSet} {name : String}
    (hexact : ExactFields values fields) (h : name ∉ fieldNames fields) :
    values.get? name = none :=
  FieldSet.get?_eq_none.mpr (hexact.names ▸ h)

end LedgerTx.Layout
