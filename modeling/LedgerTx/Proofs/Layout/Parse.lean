import LedgerTx.Proofs.Layout.Flat

/-!
# Reading the flat form

Reading the raw form of exact values gives these values back, and what is
read is exact, shaped and declared; so reading and writing invert each other.
-/

namespace LedgerTx.Layout

/-! ## Reading what was written -/

theorem Cursor.take_append {position : Nat} {bytes : Bytes} (post : Bytes)
    (hlimit : position + bytes.length < positionLimit) :
    Cursor.take ⟨position, bytes ++ post⟩ bytes.length
      = .ok (bytes, ⟨position + bytes.length, post⟩) := by
  rw [Cursor.take, if_neg (by simpa using hlimit), if_neg (by simp)]
  simp

theorem ends_cons {name : String} {kind : Kind} {rest : List FieldSpec} (full : FieldSet)
    {post : Bytes}
    (h : boundedFields (⟨name, kind⟩ :: rest) = true
      ∨ post = [] ∧ closingFields (⟨name, kind⟩ :: rest) = true) :
    (kind.bounded = true ∨ rawFields full rest ++ post = [] ∧ kind.closing = true)
      ∧ (boundedFields rest = true ∨ post = [] ∧ closingFields rest = true) := by
  rcases h with hbounded | ⟨rfl, hclosing⟩
  · obtain ⟨hkind, hrest⟩ := Bool.and_eq_true_iff.mp hbounded
    exact ⟨.inl hkind, .inl hrest⟩
  · cases rest with
    | nil => exact ⟨.inr ⟨rfl, hclosing⟩, .inl rfl⟩
    | cons next later =>
        obtain ⟨hkind, hrest⟩ := Bool.and_eq_true_iff.mp hclosing
        exact ⟨.inl hkind, .inr ⟨rfl, hrest⟩⟩

theorem parseMany_flatMap {form : FieldSet → Bytes}
    (read : Cursor → Except Error (FieldSet × Cursor)) {tables : List FieldSet} {position : Nat}
    (post : Bytes)
    (hread : ∀ table ∈ tables, ∀ position post, position + (form table).length < positionLimit →
      read ⟨position, form table ++ post⟩ = .ok (table, ⟨position + (form table).length, post⟩))
    (hlimit : position + (tables.flatMap form).length < positionLimit) :
    parseMany read tables.length ⟨position, tables.flatMap form ++ post⟩
      = .ok (tables, ⟨position + (tables.flatMap form).length, post⟩) := by
  induction tables generalizing position with
  | nil => rfl
  | cons table rest ih =>
      rw [List.flatMap_cons, List.length_append] at hlimit ⊢
      rw [List.length_cons, parseMany, List.append_assoc,
        hread table List.mem_cons_self position _ (by omega)]
      have hlimitRest : position + (form table).length + (rest.flatMap form).length
          < positionLimit := by omega
      have hrest := ih (fun other hother => hread other (List.mem_cons_of_mem _ hother)) hlimitRest
      simp only [bind, Except.bind, hrest, Nat.add_assoc]

theorem parseToEnd_flatMap {form : FieldSet → Bytes}
    (read : Cursor → Except Error (FieldSet × Cursor)) (field : String) {tables : List FieldSet}
    {position : Nat}
    (hread : ∀ table ∈ tables, ∀ position post, position + (form table).length < positionLimit →
      read ⟨position, form table ++ post⟩ = .ok (table, ⟨position + (form table).length, post⟩))
    (hsome : ∀ table ∈ tables, 0 < (form table).length)
    (hlimit : position + (tables.flatMap form).length < positionLimit) :
    parseToEnd read field ⟨position, tables.flatMap form⟩
      = .ok (tables, ⟨position + (tables.flatMap form).length, []⟩) := by
  induction tables generalizing position with
  | nil =>
      rw [parseToEnd]
      rfl
  | cons table rest ih =>
      have htable := hsome table List.mem_cons_self
      rw [List.flatMap_cons, List.length_append] at hlimit ⊢
      have hlimitRest : position + (form table).length + (rest.flatMap form).length
          < positionLimit := by omega
      have hrest := ih (fun other hother => hread other (List.mem_cons_of_mem _ hother))
        (fun other hother => hsome other (List.mem_cons_of_mem _ hother)) hlimitRest
      have hempty : (form table ++ rest.flatMap form).isEmpty = false := by
        rw [List.isEmpty_eq_false_iff, ← List.length_pos_iff, List.length_append]
        omega
      rw [parseToEnd]
      simp only [hempty, hread table List.mem_cons_self position _ (by omega), hrest,
        List.length_append, Nat.add_assoc]
      simp [htable]

mutual

theorem Schema.parse_raw {outer : Scope} {values : FieldSet} {position : Nat} {post : Bytes} :
    (schema : Schema) → Schema.Shaped values schema → Schema.Declared outer values schema →
      Schema.Exact values schema → schema.distinct = true → schema.scoped = true →
      (schema.bounded = true ∨ post = [] ∧ schema.closing = true) →
      position + (Schema.raw values schema).length < positionLimit →
      Schema.parse outer ⟨position, Schema.raw values schema ++ post⟩ schema
        = .ok (values, ⟨position + (Schema.raw values schema).length, post⟩)
  | ⟨schemaName, fields⟩, hshaped, hdeclared, hexact, hdistinct, hscoped, hend, hlimit => by
      have hagree : Scope.Agree (Schema.free ⟨schemaName, fields⟩) (values :: outer)
          ([] :: outer) := by
        intro name hname
        obtain ⟨-, houtside⟩ := List.mem_filter.mp hname
        rw [Scope.lookup_cons_of_none (ExactFields.get?_eq_none hexact (of_decide_eq_true houtside)),
          Scope.lookup_cons_of_none (FieldSet.get?_nil name)]
      exact parseFields_raw fields hshaped hdeclared hexact
        (fun _ _ hmem => ExactFields.get?_of_mem hexact hdistinct hmem) (fun _ _ => rfl) hagree
        hdistinct hscoped hend hlimit

/--
Fields are read back after those in `acc`, when the scope of the reader
agrees with that of the writer on the names looked up outside these fields.
-/
theorem parseFields_raw {outer outer' : Scope} {full acc values : FieldSet} {position : Nat}
    {post : Bytes} {schemaName : String} :
    (fields : List FieldSpec) → ShapedFields full fields →
      DeclaredFields (full :: outer) full fields → ExactFields values fields →
      (∀ name value, (name, value) ∈ values → full.get? name = some value) →
      (∀ name ∈ fieldNames fields, acc.get? name = none) →
      Scope.Agree (Schema.free ⟨schemaName, fields⟩) (full :: outer) (acc :: outer') →
      distinctFields fields = true → scopedFields fields = true →
      (boundedFields fields = true ∨ post = [] ∧ closingFields fields = true) →
      position + (rawFields full fields).length < positionLimit →
      parseFields outer' acc ⟨position, rawFields full fields ++ post⟩ fields
        = .ok (acc ++ values, ⟨position + (rawFields full fields).length, post⟩)
  | [], _, _, hexact, _, _, _, _, _, _, _ => by
      cases hexact
      simp [parseFields, rawFields]
  | ⟨name, kind⟩ :: rest, ⟨⟨found, hfound, hshaped⟩, hshapedRest⟩, ⟨hdeclared, hdeclaredRest⟩,
      ⟨value, others, hvalues, hexact, hexactRest⟩, hfull, hfresh, hagree, hdistinct, hscoped,
      hend, hlimit => by
      obtain ⟨⟨hname, hdistinctKind⟩, hdistinctRest⟩ := distinctFields_cons hdistinct
      obtain ⟨hunseen, hscopedKind, hscopedRest⟩ := scopedFields_cons hscoped
      obtain ⟨hendKind, hendRest⟩ := ends_cons full hend
      have hvalue := hfull name value (hvalues ▸ List.mem_cons_self)
      obtain rfl : value = found := Option.some.inj (hvalue.symm.trans hfound)
      simp only [rawFields, hvalue, List.length_append] at hlimit ⊢
      have hagreeKind : Scope.Agree kind.mentioned (full :: outer) (acc :: outer') := by
        refine hagree.mono fun scalar hscalar => ?_
        rw [Schema.free, List.mem_filter]
        exact ⟨List.mem_append_left _ hscalar, decide_eq_true (hunseen scalar hscalar)⟩
      have hread : Kind.parse (acc :: outer') name
          ⟨position, Kind.raw value kind ++ (rawFields full rest ++ post)⟩ kind
          = .ok (value, ⟨position + (Kind.raw value kind).length, rawFields full rest ++ post⟩) :=
        Kind.parse_raw kind hshaped
          (Kind.Declared.agree kind hshaped hagreeKind (hdeclared value hvalue)) hexact
          hdistinctKind hscopedKind hendKind (by omega)
      have habsent := hfresh name List.mem_cons_self
      have hinsert := FieldSet.insert_of_get?_eq_none habsent value
      have hlookup (other : String) (hother : other ≠ name) :
          (acc ++ [(name, value)]).get? other = acc.get? other := by
        rw [FieldSet.get?_append, FieldSet.get?_cons_ne hother, FieldSet.get?_nil, Option.or_none]
      have hagreeRest : Scope.Agree (Schema.free ⟨schemaName, rest⟩) (full :: outer)
          ((acc ++ [(name, value)]) :: outer') := by
        intro scalar hscalar
        obtain ⟨hmentioned, houtside⟩ := List.mem_filter.mp hscalar
        by_cases heq : scalar = name
        · subst heq
          apply Scope.lookup_cons_congr hvalue
          rw [FieldSet.get?_append, habsent, Option.none_or, FieldSet.get?_cons_self]
        · rw [hagree scalar, Scope.lookup_cons_eq (hlookup scalar heq)]
          rw [Schema.free, List.mem_filter]
          refine ⟨List.mem_append_right _ hmentioned, decide_eq_true fun hmem => ?_⟩
          rcases List.mem_cons.mp hmem with hhead | hlater
          · exact heq hhead
          · exact of_decide_eq_true houtside hlater
      have hfreshRest (other : String) (hother : other ∈ fieldNames rest) :
          (acc ++ [(name, value)]).get? other = none := by
        rw [hlookup other (fun heq => hname (heq ▸ hother))]
        exact hfresh other (List.mem_cons_of_mem _ hother)
      have hlimitRest : position + (Kind.raw value kind).length + (rawFields full rest).length
          < positionLimit := by omega
      have hnext := parseFields_raw rest hshapedRest hdeclaredRest hexactRest
        (fun other found hmem => hfull other found (hvalues ▸ List.mem_cons_of_mem _ hmem))
        hfreshRest hagreeRest hdistinctRest hscopedRest hendRest hlimitRest
      rw [parseFields, List.append_assoc, hread]
      simp only [bind, Except.bind, hinsert, hnext, hvalues, List.append_assoc,
        List.singleton_append, Nat.add_assoc]

theorem Kind.parse_raw {scope : Scope} {field : String} {value : Value} {position : Nat}
    {post : Bytes} :
    (kind : Kind) → Kind.Shaped value kind → Kind.Declared scope value kind →
      Kind.Exact value kind → kind.distinct = true → kind.scoped = true →
      (kind.bounded = true ∨ post = [] ∧ kind.closing = true) →
      position + (Kind.raw value kind).length < positionLimit →
      Kind.parse scope field ⟨position, Kind.raw value kind ++ post⟩ kind
        = .ok (value, ⟨position + (Kind.raw value kind).length, post⟩)
  | .scalar width, ⟨n, hn, hfits⟩, _, _, _, _, _, hlimit => by
      subst hn
      have hread := Cursor.take_append post hlimit
      simp only [Kind.raw, LittleEndian.length_encode] at hread ⊢
      rw [Kind.parse, hread]
      simp [bind, Except.bind, LittleEndian.decode_encode, Nat.mod_eq_of_lt hfits]
  | .array size, ⟨bytes, hbytes, hsize⟩, _, _, _, _, _, hlimit => by
      subst hbytes hsize
      have hread := Cursor.take_append post hlimit
      simp only [Kind.raw] at hread ⊢
      simp only [Kind.parse, bind, Except.bind, hread]
  | .vector length, ⟨bytes, hbytes⟩, hdeclared, _, _, _, hend, hlimit => by
      subst hbytes
      have hread := Cursor.take_append post hlimit
      simp only [Kind.raw] at hread ⊢
      cases length with
      | named scalar bias =>
          have hlength : scope.length field scalar bias = .ok bytes.length :=
            Scope.length_eq_ok.mpr (hdeclared bytes rfl)
          rw [Kind.parse, hlength]
          simp only [bind, Except.bind, hread]
      | rest =>
          rcases hend with hbounded | ⟨rfl, -⟩
          · cases hbounded
          · rw [List.append_nil] at hread ⊢
            simp only [Kind.parse, bind, Except.bind, hread]
  | .table schema, ⟨nested, hnested, hshaped⟩, hdeclared, hexact, hdistinct, hscoped, hend,
      hlimit => by
      subst hnested
      rw [Kind.parse, Kind.raw, Schema.parse_raw schema hshaped (hdeclared nested rfl)
        (hexact nested rfl) hdistinct hscoped hend hlimit]
      rfl
  | .tableArray schema count, ⟨tables, htables, hshaped⟩, hdeclared, hexact, hdistinct, hscoped,
      hend, hlimit => by
      subst htables
      obtain ⟨hcount, hnested⟩ := hdeclared tables rfl
      have hbounded : schema.bounded = true := by
        rcases hend with h | ⟨-, h⟩
        · exact (Bool.and_eq_true_iff.mp h).2
        · exact (Bool.and_eq_true_iff.mp h).1
      have hread (table : FieldSet) (htable : table ∈ tables) (position : Nat) (post : Bytes)
          (hlimit : position + (Schema.raw table schema).length < positionLimit) :
          Schema.parse scope ⟨position, Schema.raw table schema ++ post⟩ schema
            = .ok (table, ⟨position + (Schema.raw table schema).length, post⟩) :=
        Schema.parse_raw schema (hshaped table htable) (hnested table htable)
          (hexact tables rfl table htable) hdistinct hscoped (.inl hbounded) hlimit
      cases count with
      | named scalar =>
          obtain ⟨n, hn, hlength⟩ := hcount
          rw [Kind.parse, Kind.raw, hn]
          have hmany := parseMany_flatMap (fun c => Schema.parse scope c schema) post hread hlimit
          simp only [bind, Except.bind, hlength, hmany]
      | rest =>
          rcases hend with h | ⟨rfl, hclosing⟩
          · simp [Kind.bounded] at h
          · have hsome (table : FieldSet) (htable : table ∈ tables) :
                0 < (Schema.raw table schema).length := by
              have hleast := Schema.least_le schema (hshaped table htable)
              have hpositive : 0 < schema.least := by
                simpa [Kind.closing, hbounded] using hclosing
              omega
            have htables := parseToEnd_flatMap (fun c => Schema.parse scope c schema) field hread
              hsome hlimit
            rw [Kind.parse, Kind.raw, List.append_nil]
            simp only [bind, Except.bind, htables]

end

/-! ## What is read -/

/-- A reader went past the given bytes. -/
structure Cursor.Passes (bytes : Bytes) (cursor next : Cursor) : Prop where
  rest : cursor.rest = bytes ++ next.rest
  position : next.position = cursor.position + bytes.length

namespace Cursor.Passes

theorem refl (cursor : Cursor) : Passes [] cursor cursor :=
  ⟨rfl, rfl⟩

theorem append {bytes more : Bytes} {cursor next last : Cursor} (h : Passes bytes cursor next)
    (h' : Passes more next last) : Passes (bytes ++ more) cursor last := by
  constructor
  · rw [h.rest, h'.rest, List.append_assoc]
  · rw [h'.position, h.position, List.length_append, Nat.add_assoc]

theorem of_take {count : Nat} {bytes : Bytes} {cursor next : Cursor}
    (h : cursor.take count = .ok (bytes, next)) :
    Passes bytes cursor next ∧ bytes.length = count := by
  unfold take at h
  split at h
  · cases h
  · split at h
    · cases h
    · rename_i hlimit hlong
      cases h
      have hlength : (cursor.rest.take count).length = count := by
        rw [List.length_take]
        omega
      exact ⟨⟨(List.take_append_drop _ _).symm, by rw [hlength]⟩, hlength⟩

end Cursor.Passes

open Cursor (Passes)

theorem parseMany_passes {read : Cursor → Except Error (FieldSet × Cursor)}
    {good : FieldSet → Prop} {form : FieldSet → Bytes}
    (hread : ∀ cursor table next, read cursor = .ok (table, next) →
      good table ∧ Passes (form table) cursor next)
    {count : Nat} {cursor last : Cursor} {tables : List FieldSet}
    (h : parseMany read count cursor = .ok (tables, last)) :
    tables.length = count ∧ (∀ table ∈ tables, good table)
      ∧ Passes (tables.flatMap form) cursor last := by
  induction count generalizing cursor tables with
  | zero =>
      cases h
      exact ⟨rfl, by simp, .refl _⟩
  | succ count ih =>
      obtain ⟨⟨table, next⟩, htable, h⟩ := bind_eq_ok.mp h
      obtain ⟨⟨rest, last'⟩, hrest, h⟩ := bind_eq_ok.mp h
      cases h
      obtain ⟨hgood, hpasses⟩ := hread _ _ _ htable
      obtain ⟨hlength, hgoodRest, hpassesRest⟩ := ih hrest
      refine ⟨by rw [List.length_cons, hlength], ?_, hpasses.append hpassesRest⟩
      exact List.forall_mem_cons.mpr ⟨hgood, hgoodRest⟩

theorem parseToEnd_passes {read : Cursor → Except Error (FieldSet × Cursor)}
    {good : FieldSet → Prop} {form : FieldSet → Bytes} {field : String}
    (hread : ∀ cursor table next, read cursor = .ok (table, next) →
      good table ∧ Passes (form table) cursor next)
    (cursor : Cursor) {last : Cursor} {tables : List FieldSet}
    (h : parseToEnd read field cursor = .ok (tables, last)) :
    (∀ table ∈ tables, good table) ∧ Passes (tables.flatMap form) cursor last := by
  rw [parseToEnd] at h
  split at h
  · cases h
    exact ⟨by simp, .refl _⟩
  · split at h
    · cases h
    · rename_i table next htable
      split at h
      · rename_i hshorter
        split at h
        · cases h
        · rename_i rest last' hrest
          cases h
          obtain ⟨hgood, hpasses⟩ := hread _ _ _ htable
          obtain ⟨hgoodRest, hpassesRest⟩ := parseToEnd_passes hread next hrest
          exact ⟨List.forall_mem_cons.mpr ⟨hgood, hgoodRest⟩, hpasses.append hpassesRest⟩
      · cases h
termination_by cursor.rest.length

theorem toNat_toUInt64_of_lt {width : Width} {n : Nat} (h : n < 256 ^ width.bytes) :
    n.toUInt64.toNat = n := by
  have hpower : 256 ^ width.bytes ≤ 256 ^ 8 := Nat.pow_le_pow_right (by decide) width.bytes_le
  exact toNat_toUInt64 (by omega)

mutual

/-- A table that was read is exact, shaped and declared, and was read from its raw form. -/
theorem Schema.parse_passes {outer : Scope} {values : FieldSet} {cursor next : Cursor} :
    (schema : Schema) → schema.distinct = true → schema.scoped = true →
      Schema.parse outer cursor schema = .ok (values, next) →
      (Schema.Exact values schema ∧ Schema.Shaped values schema
          ∧ Schema.Declared outer values schema)
        ∧ Passes (Schema.raw values schema) cursor next
  | ⟨_, fields⟩, hdistinct, hscoped, h => by
      obtain ⟨others, hvalues, hexact, hshaped, hdeclared, hpasses⟩ :=
        parseFields_passes fields hdistinct hscoped (fun _ _ => rfl) h
      rw [List.nil_append] at hvalues
      cases hvalues
      exact ⟨⟨hexact, hshaped, hdeclared⟩, hpasses⟩

theorem parseFields_passes {outer : Scope} {acc values : FieldSet} {cursor last : Cursor} :
    (fields : List FieldSpec) → distinctFields fields = true → scopedFields fields = true →
      (∀ name ∈ fieldNames fields, acc.get? name = none) →
      parseFields outer acc cursor fields = .ok (values, last) →
      ∃ others, values = acc ++ others ∧ ExactFields others fields ∧ ShapedFields values fields
        ∧ DeclaredFields (values :: outer) values fields
        ∧ Passes (rawFields values fields) cursor last
  | [], _, _, _, h => by
      cases h
      exact ⟨[], (List.append_nil _).symm, rfl, trivial, trivial, .refl _⟩
  | ⟨name, kind⟩ :: rest, hdistinct, hscoped, hfresh, h => by
      obtain ⟨⟨hname, hdistinctKind⟩, hdistinctRest⟩ := distinctFields_cons hdistinct
      obtain ⟨hunseen, hscopedKind, hscopedRest⟩ := scopedFields_cons hscoped
      obtain ⟨⟨value, next⟩, hvalue, h⟩ := bind_eq_ok.mp h
      have habsent := hfresh name List.mem_cons_self
      dsimp only at h
      rw [FieldSet.insert_of_get?_eq_none habsent] at h
      obtain ⟨⟨hexact, hshaped, hdeclared⟩, hpasses⟩ :=
        Kind.parse_passes kind hdistinctKind hscopedKind hvalue
      have hfreshRest (other : String) (hother : other ∈ fieldNames rest) :
          (acc ++ [(name, value)]).get? other = none := by
        have hne : other ≠ name := by
          rintro rfl
          exact hname hother
        rw [FieldSet.get?_append, hfresh other (List.mem_cons_of_mem _ hother), Option.none_or,
          FieldSet.get?_cons_ne hne, FieldSet.get?_nil]
      obtain ⟨others, hvalues, hexactRest, hshapedRest, hdeclaredRest, hpassesRest⟩ :=
        parseFields_passes rest hdistinctRest hscopedRest hfreshRest h
      rw [List.append_assoc, List.singleton_append] at hvalues
      have hfound : values.get? name = some value := by
        rw [hvalues, FieldSet.get?_append, habsent, Option.none_or, FieldSet.get?_cons_self]
      have hagree : Scope.Agree kind.mentioned (acc :: outer) (values :: outer) := by
        intro scalar hscalar
        apply Scope.lookup_cons_eq
        have hnone : FieldSet.get? ((name, value) :: others) scalar = none := by
          rw [FieldSet.get?_eq_none, List.map_cons, hexactRest.names]
          exact hunseen scalar hscalar
        rw [hvalues, FieldSet.get?_append, hnone, Option.or_none]
      refine ⟨(name, value) :: others, hvalues, ⟨value, others, rfl, hexact, hexactRest⟩,
        ⟨⟨value, hfound, hshaped⟩, hshapedRest⟩, ⟨fun found hsome => ?_, hdeclaredRest⟩, ?_⟩
      · rw [hfound] at hsome
        cases hsome
        exact Kind.Declared.agree kind hshaped hagree hdeclared
      · simp only [rawFields, hfound]
        exact hpasses.append hpassesRest

theorem Kind.parse_passes {scope : Scope} {field : String} {value : Value}
    {cursor next : Cursor} :
    (kind : Kind) → kind.distinct = true → kind.scoped = true →
      Kind.parse scope field cursor kind = .ok (value, next) →
      (Kind.Exact value kind ∧ Kind.Shaped value kind ∧ Kind.Declared scope value kind)
        ∧ Passes (Kind.raw value kind) cursor next
  | .scalar width, _, _, h => by
      obtain ⟨⟨bytes, next'⟩, hbytes, h⟩ := bind_eq_ok.mp h
      cases h
      obtain ⟨hpasses, hlength⟩ := Passes.of_take hbytes
      have hfits := LittleEndian.decode_lt bytes
      rw [hlength] at hfits
      have hword := toNat_toUInt64_of_lt hfits
      refine ⟨⟨trivial, ⟨_, rfl, by rw [hword]; exact hfits⟩, trivial⟩, ?_⟩
      rw [Kind.raw, hword, ← hlength, LittleEndian.encode_decode]
      exact hpasses
  | .array size, _, _, h => by
      obtain ⟨⟨bytes, next'⟩, hbytes, h⟩ := bind_eq_ok.mp h
      cases h
      obtain ⟨hpasses, hlength⟩ := Passes.of_take hbytes
      exact ⟨⟨trivial, ⟨bytes, rfl, hlength⟩, trivial⟩, hpasses⟩
  | .vector length, _, _, h => by
      cases length with
      | named scalar bias =>
          obtain ⟨count, hcount, h⟩ := bind_eq_ok.mp h
          obtain ⟨⟨bytes, next'⟩, hbytes, h⟩ := bind_eq_ok.mp h
          cases h
          obtain ⟨hpasses, hlength⟩ := Passes.of_take hbytes
          refine ⟨⟨trivial, ⟨bytes, rfl⟩, ?_⟩, hpasses⟩
          rintro _ ⟨⟩
          rw [hlength]
          exact Scope.length_eq_ok.mp hcount
      | rest =>
          obtain ⟨⟨bytes, next'⟩, hbytes, h⟩ := bind_eq_ok.mp h
          cases h
          exact ⟨⟨trivial, ⟨bytes, rfl⟩, trivial⟩, (Passes.of_take hbytes).1⟩
  | .table schema, hdistinct, hscoped, h => by
      obtain ⟨⟨table, next'⟩, htable, h⟩ := bind_eq_ok.mp h
      cases h
      obtain ⟨⟨hexact, hshaped, hdeclared⟩, hpasses⟩ :=
        Schema.parse_passes schema hdistinct hscoped htable
      refine ⟨⟨?_, ⟨table, rfl, hshaped⟩, ?_⟩, hpasses⟩
      · rintro _ ⟨⟩
        exact hexact
      · rintro _ ⟨⟩
        exact hdeclared
  | .tableArray schema count, hdistinct, hscoped, h => by
      have hread (cursor : Cursor) (table : FieldSet) (next : Cursor)
          (h : Schema.parse scope cursor schema = .ok (table, next)) :=
        Schema.parse_passes schema hdistinct hscoped h
      cases count with
      | named scalar =>
          obtain ⟨n, hn, h⟩ := bind_eq_ok.mp h
          obtain ⟨⟨tables, next'⟩, htables, h⟩ := bind_eq_ok.mp h
          cases h
          obtain ⟨hlength, hgood, hpasses⟩ := parseMany_passes hread htables
          refine ⟨⟨?_, ⟨tables, rfl, fun table hmem => (hgood table hmem).2.1⟩, ?_⟩, hpasses⟩
          · rintro _ ⟨⟩ table hmem
            exact (hgood table hmem).1
          · rintro _ ⟨⟩
            exact ⟨⟨n, hn, hlength.symm⟩, fun table hmem => (hgood table hmem).2.2⟩
      | rest =>
          obtain ⟨⟨tables, next'⟩, htables, h⟩ := bind_eq_ok.mp h
          cases h
          obtain ⟨hgood, hpasses⟩ := parseToEnd_passes hread _ htables
          refine ⟨⟨?_, ⟨tables, rfl, fun table hmem => (hgood table hmem).2.1⟩, ?_⟩, hpasses⟩
          · rintro _ ⟨⟩ table hmem
            exact (hgood table hmem).1
          · rintro _ ⟨⟩
            exact ⟨trivial, fun table hmem => (hgood table hmem).2.2⟩

end

end LedgerTx.Layout
