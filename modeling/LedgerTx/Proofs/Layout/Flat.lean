import LedgerTx.Proofs.Layout.Shape

/-!
# Writing the flat form

Writing a flat form succeeds exactly on values that are shaped and declared,
and gives their raw form.  Of the tables around it a table depends on the
scalars only that it looks up there.
-/

namespace LedgerTx.Layout

/-! ## Writing -/

theorem writeScalar_eq_ok {field : String} {width : Width} {value : UInt64} {bytes : Bytes} :
    writeScalar field width value = .ok bytes
      ↔ value.toNat < 256 ^ width.bytes ∧ bytes = LittleEndian.encode width.bytes value.toNat := by
  unfold writeScalar
  split
  · rename_i hfits
    simp [hfits, eq_comm]
  · rename_i hwide
    simp [hwide]

theorem writeArray_eq_ok {field : String} {size : Nat} {bytes written : Bytes} :
    writeArray field size bytes = .ok written ↔ bytes.length = size ∧ written = bytes := by
  unfold writeArray
  split
  · rename_i hsize
    simp [hsize, eq_comm]
  · rename_i hsize
    simp [hsize]

theorem checkDeclared_eq_ok {field : String} {declared actual : Nat} {done : Unit} :
    checkDeclared field declared actual = .ok done ↔ declared = actual := by
  unfold checkDeclared
  split <;> simp_all

theorem Scope.length_eq_ok {scope : Scope} {field scalar : String} {bias length : Nat} :
    scope.length field scalar bias = .ok length
      ↔ ∃ n, scope.lookup scalar = .ok n ∧ n.toNat = length + bias := by
  rw [Scope.length, bind_eq_ok]
  refine exists_congr fun n => and_congr_right fun _ => ?_
  split
  · rename_i hbelow
    simp only [reduceCtorEq, false_iff]
    omega
  · rename_i habove
    simp only [Except.ok.injEq]
    omega

theorem joinTables_eq_ok {write : FieldSet → Except Error Bytes} {good : FieldSet → Prop}
    {form : FieldSet → Bytes}
    (hwrite : ∀ table bytes, write table = .ok bytes ↔ good table ∧ bytes = form table)
    {tables : List FieldSet} {bytes : Bytes} :
    joinTables write tables = .ok bytes
      ↔ (∀ table ∈ tables, good table) ∧ bytes = tables.flatMap form := by
  induction tables generalizing bytes with
  | nil => simp [joinTables, eq_comm]
  | cons table rest ih =>
      simp only [joinTables, bind_eq_ok, hwrite, ih, Except.ok.injEq, List.forall_mem_cons,
        List.flatMap_cons]
      constructor
      · rintro ⟨_, ⟨hgood, rfl⟩, _, ⟨hrest, rfl⟩, rfl⟩
        exact ⟨⟨hgood, hrest⟩, rfl⟩
      · rintro ⟨⟨hgood, hrest⟩, rfl⟩
        exact ⟨_, ⟨hgood, rfl⟩, _, ⟨hrest, rfl⟩, rfl⟩

mutual

/-- A table is written exactly when it is shaped and declared, and then in its raw form. -/
theorem Schema.flat_eq_ok (outer : Scope) (values : FieldSet) (bytes : Bytes) :
    (schema : Schema) → (Schema.flat outer values schema = .ok bytes ↔
      (Schema.Shaped values schema ∧ Schema.Declared outer values schema)
        ∧ bytes = Schema.raw values schema)
  | ⟨_, fields⟩ => by
      rw [Schema.flat, Schema.Shaped, Schema.Declared, Schema.raw]
      exact flatFields_eq_ok outer values bytes fields

theorem flatFields_eq_ok (outer : Scope) (values : FieldSet) (bytes : Bytes) :
    (fields : List FieldSpec) → (flatFields outer values fields = .ok bytes ↔
      (ShapedFields values fields ∧ DeclaredFields (values :: outer) values fields)
        ∧ bytes = rawFields values fields)
  | [] => by simp [flatFields, ShapedFields, DeclaredFields, rawFields, eq_comm]
  | ⟨name, kind⟩ :: rest => by
      simp only [flatFields, ShapedFields, DeclaredFields, rawFields, bind_eq_ok,
        FieldSet.get_eq_ok, Kind.flat_eq_ok _ name _ _ kind, flatFields_eq_ok outer values _ rest,
        Except.ok.injEq]
      constructor
      · rintro ⟨value, hvalue, _, ⟨⟨hshaped, hdeclared⟩, rfl⟩, _, ⟨⟨hrest, hrest'⟩, rfl⟩, rfl⟩
        simp only [hvalue]
        refine ⟨⟨⟨⟨value, rfl, hshaped⟩, hrest⟩, ?_, hrest'⟩, trivial⟩
        rintro _ ⟨⟩
        exact hdeclared
      · rintro ⟨⟨⟨⟨value, hvalue, hshaped⟩, hrest⟩, hdeclared, hrest'⟩, rfl⟩
        simp only [hvalue]
        exact ⟨value, rfl, _, ⟨⟨hshaped, hdeclared value hvalue⟩, rfl⟩, _, ⟨⟨hrest, hrest'⟩, rfl⟩,
          rfl⟩

theorem Kind.flat_eq_ok (scope : Scope) (field : String) (value : Value) (bytes : Bytes) :
    (kind : Kind) → (Kind.flat scope field value kind = .ok bytes ↔
      (Kind.Shaped value kind ∧ Kind.Declared scope value kind) ∧ bytes = Kind.raw value kind)
  | .scalar width => by
      cases value <;>
        simp [Kind.flat, Kind.Shaped, Kind.Declared, Kind.raw, writeScalar_eq_ok]
  | .array size => by
      cases value <;> simp [Kind.flat, Kind.Shaped, Kind.Declared, Kind.raw, writeArray_eq_ok]
  | .vector length => by
      cases length with
      | named scalar bias =>
          cases value with
          | vector content =>
              simp only [Kind.flat, Kind.Shaped, Kind.Declared, Kind.raw, bind_eq_ok,
                Scope.length_eq_ok, checkDeclared_eq_ok, Except.ok.injEq, Value.vector.injEq]
              constructor
              · rintro ⟨_, ⟨n, hn, hlength⟩, _, rfl, rfl⟩
                exact ⟨⟨⟨_, rfl⟩, fun _ heq => ⟨n, hn, heq ▸ hlength⟩⟩, rfl⟩
              · rintro ⟨⟨-, hdeclared⟩, rfl⟩
                exact ⟨_, hdeclared _ rfl, (), rfl, rfl⟩
          | _ => simp [Kind.flat, Kind.Shaped]
      | rest => cases value <;> simp [Kind.flat, Kind.Shaped, Kind.Declared, Kind.raw, eq_comm]
  | .table schema => by
      cases value <;>
        simp [Kind.flat, Kind.Shaped, Kind.Declared, Kind.raw, Schema.flat_eq_ok _ _ _ schema]
  | .tableArray schema count => by
      cases value with
      | tableArray tables =>
          have hjoin := @joinTables_eq_ok (fun nested => Schema.flat scope nested schema)
            (fun nested => Schema.Shaped nested schema ∧ Schema.Declared scope nested schema)
            (fun nested => Schema.raw nested schema)
            (fun nested bytes => Schema.flat_eq_ok scope nested bytes schema) tables
          cases count with
          | named scalar =>
              simp only [Kind.flat, Kind.Shaped, Kind.Declared, Kind.raw, bind_eq_ok,
                checkDeclared_eq_ok, hjoin, Value.tableArray.injEq]
              constructor
              · rintro ⟨n, hn, _, hlength, hgood, rfl⟩
                exact ⟨⟨⟨_, rfl, fun nested h => (hgood nested h).1⟩,
                  fun _ heq => heq ▸ ⟨⟨n, hn, hlength⟩, fun nested h => (hgood nested h).2⟩⟩, rfl⟩
              · rintro ⟨⟨⟨_, rfl, hshaped⟩, hdeclared⟩, rfl⟩
                obtain ⟨⟨n, hn, hlength⟩, hnested⟩ := hdeclared _ rfl
                exact ⟨n, hn, (), hlength, fun nested h => ⟨hshaped nested h, hnested nested h⟩, rfl⟩
          | rest =>
              simp only [Kind.flat, Kind.Shaped, Kind.Declared, Kind.raw, hjoin,
                Value.tableArray.injEq]
              constructor
              · rintro ⟨hgood, rfl⟩
                exact ⟨⟨⟨_, rfl, fun nested h => (hgood nested h).1⟩,
                  fun _ heq => heq ▸ ⟨trivial, fun nested h => (hgood nested h).2⟩⟩, rfl⟩
              · rintro ⟨⟨⟨_, rfl, hshaped⟩, hdeclared⟩, rfl⟩
                exact ⟨fun nested h => ⟨hshaped nested h, (hdeclared _ rfl).2 nested h⟩, rfl⟩
      | _ => cases count <;> simp [Kind.flat, Kind.Shaped]

end

/-! ## Scopes that agree -/

theorem ShapedFields.exists_value {values : FieldSet} {name : String} :
    {fields : List FieldSpec} → ShapedFields values fields → name ∈ fieldNames fields →
      ∃ value, values.get? name = some value
  | ⟨_, _⟩ :: _, ⟨⟨value, hvalue, _⟩, hrest⟩, hname => by
      rcases List.mem_cons.mp hname with rfl | hlater
      · exact ⟨value, hvalue⟩
      · exact hrest.exists_value hlater

theorem Scope.Agree.inside {values : FieldSet} {fields : List FieldSpec} {schemaName : String}
    {outer outer' : Scope} (hshaped : ShapedFields values fields)
    (hagree : Agree (Schema.free ⟨schemaName, fields⟩) outer outer') :
    Agree (mentionedFields fields) (values :: outer) (values :: outer') := by
  intro name hname
  cases hvalue : values.get? name with
  | some value => exact lookup_cons_congr hvalue hvalue
  | none =>
      rw [lookup_cons_of_none hvalue, lookup_cons_of_none hvalue]
      apply hagree
      rw [Schema.free, List.mem_filter]
      refine ⟨hname, decide_eq_true fun hown => ?_⟩
      obtain ⟨value, hsome⟩ := hshaped.exists_value hown
      rw [hvalue] at hsome
      cases hsome

mutual

theorem Schema.Declared.agree {outer outer' : Scope} {values : FieldSet} :
    (schema : Schema) → Schema.Shaped values schema →
      Scope.Agree (Schema.free schema) outer outer' → Schema.Declared outer values schema →
        Schema.Declared outer' values schema
  | ⟨_, fields⟩, hshaped, hagree, hdeclared =>
      DeclaredFields.agree fields hshaped (hagree.inside hshaped) hdeclared

/-- Only the names that fields look up matter for what a scope declares. -/
theorem DeclaredFields.agree {scope scope' : Scope} {values : FieldSet} :
    (fields : List FieldSpec) → ShapedFields values fields →
      Scope.Agree (mentionedFields fields) scope scope' → DeclaredFields scope values fields →
        DeclaredFields scope' values fields
  | [], _, _, _ => trivial
  | ⟨_, kind⟩ :: rest, ⟨⟨found, hfound, hshaped⟩, hrest⟩, hagree, ⟨hdeclared, hdeclaredRest⟩ => by
      refine ⟨fun value hvalue => ?_, DeclaredFields.agree rest hrest
        (hagree.mono fun name => List.mem_append_right _) hdeclaredRest⟩
      rw [hfound] at hvalue
      cases hvalue
      exact Kind.Declared.agree kind hshaped (hagree.mono fun name => List.mem_append_left _)
        (hdeclared found hfound)

theorem Kind.Declared.agree {scope scope' : Scope} {value : Value} :
    (kind : Kind) → Kind.Shaped value kind → Scope.Agree (Kind.mentioned kind) scope scope' →
      Kind.Declared scope value kind → Kind.Declared scope' value kind
  | .scalar _, _, _, _ => trivial
  | .array _, _, _, _ => trivial
  | .vector length, _, hagree, hdeclared => by
      cases length with
      | named scalar bias =>
          intro bytes hbytes
          obtain ⟨n, hn, hlength⟩ := hdeclared bytes hbytes
          exact ⟨n, hagree scalar (List.mem_singleton.mpr rfl) ▸ hn, hlength⟩
      | rest => trivial
  | .table schema, ⟨nested, hnested, hshaped⟩, hagree, hdeclared => by
      intro other hother
      rw [hnested] at hother
      cases hother
      exact Schema.Declared.agree schema hshaped hagree (hdeclared nested hnested)
  | .tableArray schema count, ⟨tables, htables, hshaped⟩, hagree, hdeclared => by
      intro other hother
      rw [htables] at hother
      cases hother
      obtain ⟨hcount, hnested⟩ := hdeclared tables htables
      cases count with
      | named scalar =>
          obtain ⟨n, hn, hlength⟩ := hcount
          refine ⟨⟨n, hagree scalar List.mem_cons_self ▸ hn, hlength⟩, fun nested hmem => ?_⟩
          exact Schema.Declared.agree schema (hshaped nested hmem)
            (hagree.mono fun name => List.mem_cons_of_mem _) (hnested nested hmem)
      | rest =>
          exact ⟨trivial, fun nested hmem =>
            Schema.Declared.agree schema (hshaped nested hmem) hagree (hnested nested hmem)⟩

end

/-! ## Fewest bytes -/

theorem Width.bytes_le (width : Width) : width.bytes ≤ 8 := by
  cases width <;> decide

mutual

theorem Schema.least_le {values : FieldSet} :
    (schema : Schema) → Schema.Shaped values schema →
      schema.least ≤ (Schema.raw values schema).length
  | ⟨_, fields⟩, hshaped => leastFields_le fields hshaped

theorem leastFields_le {values : FieldSet} :
    (fields : List FieldSpec) → ShapedFields values fields →
      leastFields fields ≤ (rawFields values fields).length
  | [], _ => Nat.le_refl 0
  | ⟨_, kind⟩ :: rest, ⟨⟨_, hvalue, hshaped⟩, hrest⟩ => by
      have hhead := Kind.least_le kind hshaped
      have htail := leastFields_le rest hrest
      simp only [leastFields, rawFields, hvalue, List.length_append]
      omega

theorem Kind.least_le {value : Value} :
    (kind : Kind) → Kind.Shaped value kind → kind.least ≤ (Kind.raw value kind).length
  | .scalar _, ⟨_, hn, _⟩ => by
      simp [hn, Kind.least, Kind.raw]
  | .array _, ⟨_, hbytes, hsize⟩ => by
      simp [hbytes, Kind.least, Kind.raw, hsize]
  | .vector _, _ => Nat.zero_le _
  | .table schema, ⟨_, hnested, hshaped⟩ => by
      simp only [hnested, Kind.least, Kind.raw]
      exact Schema.least_le schema hshaped
  | .tableArray _ _, _ => Nat.zero_le _

end

end LedgerTx.Layout
