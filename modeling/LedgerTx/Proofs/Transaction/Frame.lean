import LedgerTx.Proofs.Operation.Kind
import LedgerTx.Transaction.Payload

/-!
# Framed payloads

A framed payload is the flat form of header and body values with some bytes
after it, where the header tells the size of the whole and the kind of the
body.  What is written is framed, and the steps of reading succeed on a
payload exactly when it is framed.
-/

namespace LedgerTx

open Layout (FieldSet FieldSpec Value Schema Width Same Fits Nested ShapedFields WellFormed
  fieldNames mentionedFields rawFields selectFields fixedFields leastFields boundedFields denseFields
  slackFields slotLimit)
open Layout.FieldSet

/-! ## Fields of a joined schema -/

theorem Layout.Schema.join_pair (header body : Schema) :
    Schema.join [header, body] = header.fields ++ body.fields := by
  simp [Schema.join]

theorem Layout.Nested.append {values : FieldSet} {fields others : List FieldSpec}
    (h : Nested values fields) (hothers : Nested values others) :
    Nested values (fields ++ others) := by
  intro name kind hmem
  rcases List.mem_append.mp hmem with hleft | hright
  · exact h name kind hleft
  · exact hothers name kind hright

theorem Layout.Nested.congr {values others : FieldSet} {fields : List FieldSpec}
    (h : Nested values fields) (hsame : Same values others fields) : Nested others fields := by
  intro name kind hmem value hvalue
  exact h name kind hmem value (hsame name (Layout.mem_fieldNames hmem) ▸ hvalue)

def ScalarAt (fields : List FieldSpec) (position : Nat) (name : String) (width : Width) : Prop :=
  ∃ front rest, fields = front ++ ⟨name, .scalar width⟩ :: rest ∧ fixedFields front = true
    ∧ leastFields front = position

theorem ScalarAt.append {fields : List FieldSpec} {position : Nat} {name : String} {width : Width}
    (h : ScalarAt fields position name width) (others : List FieldSpec) :
    ScalarAt (fields ++ others) position name width := by
  obtain ⟨front, rest, rfl, hfixed, hposition⟩ := h
  exact ⟨front, rest ++ others, by rw [List.append_assoc, List.cons_append], hfixed, hposition⟩

theorem ScalarAt.bytes_eq {fields : List FieldSpec} {position : Nat} {name : String} {width : Width}
    (h : ScalarAt fields position name width) {values : FieldSet} (hfits : Fits values fields)
    (post : Bytes) : ∃ n, values.get? name = some (.scalar n) ∧ n.toNat < 256 ^ width.bytes
      ∧ ((rawFields values fields ++ post).drop position).take width.bytes
        = LittleEndian.encode width.bytes n.toNat := by
  obtain ⟨front, rest, rfl, hfixed, rfl⟩ := h
  obtain ⟨hfront, hrest⟩ := Layout.fits_append.mp hfits
  obtain ⟨⟨_, hvalue, -, ⟨n, rfl, hn⟩, -⟩, -⟩ := Layout.fits_cons.mp hrest
  refine ⟨n, hvalue, hn, ?_⟩
  have hraw : rawFields values (⟨name, .scalar width⟩ :: rest)
      = LittleEndian.encode width.bytes n.toNat ++ rawFields values rest := by
    rw [rawFields, hvalue]
    rfl
  rw [Layout.rawFields_append, ← Layout.length_rawFields_of_fixed front hfixed hfront.shaped,
    List.append_assoc, List.drop_left, hraw, List.append_assoc,
    List.take_left' (LittleEndian.length_encode _ _)]

/-! ## Headers -/

/-- A header that tells size and kind and that the body of every kind can follow. -/
structure IsHeader (header : Schema) (kindPosition size : Nat) : Prop where
  wellFormed : ∀ kind : TransactionKind, WellFormed (Schema.join [header, kind.schema])
  size_unused : ∀ kind : TransactionKind,
    "size" ∉ mentionedFields (Schema.join [header, kind.schema])
  size_at : ∃ rest, header.fields = FieldSpec.u32 "size" :: rest
  kind_at : ScalarAt header.fields kindPosition "type" .u16
  closed : mentionedFields header.fields = []
  inline : ∀ field ∈ header.fields, field.kind.inline = true
  fixed : fixedFields header.fields = true
  least : leastFields header.fields = size

theorem isHeader_transaction :
    IsHeader transactionHeader Payload.kindPosition Payload.headerSize where
  wellFormed := Coded.forall_of_all (by decide)
  size_unused := Coded.forall_of_all (by decide)
  size_at := ⟨_, rfl⟩
  kind_at := ⟨[.u32 "size", .array "signature" 64, .array "signer" 32, .u32 "reserved",
    .u16 "version"], _, rfl, rfl, rfl⟩
  closed := rfl
  inline := by decide
  fixed := rfl
  least := rfl

theorem isHeader_embedded :
    IsHeader embeddedHeader Payload.embeddedKindPosition Payload.embeddedHeaderSize where
  wellFormed := Coded.forall_of_all (by decide)
  size_unused := Coded.forall_of_all (by decide)
  size_at := ⟨_, rfl⟩
  kind_at := ⟨[.u32 "size", .u32 "reserved", .u16 "version"], _, rfl, rfl, rfl⟩
  closed := rfl
  inline := by decide
  fixed := rfl
  least := rfl

namespace IsHeader

variable {header : Schema} {kindPosition size : Nat} (hheader : IsHeader header kindPosition size)

include hheader

theorem not_mem_of_mem (kind : TransactionKind) {name : String}
    (h : name ∈ fieldNames kind.schema.fields) : name ∉ fieldNames header.fields := by
  intro hmem
  have hnodup := Layout.distinctFields.nodup (hheader.wellFormed kind).distinct
  rw [Schema.join_pair, fieldNames, List.map_append] at hnodup
  exact (List.nodup_append.mp hnodup).2.2 name hmem name h rfl

theorem size_mem : "size" ∈ fieldNames header.fields := by
  obtain ⟨rest, hrest⟩ := hheader.size_at
  rw [hrest]
  exact List.mem_cons_self

theorem join_eq (kind : TransactionKind) :
    ∃ rest, Schema.join [header, kind.schema] = FieldSpec.u32 "size" :: rest
      ∧ "size" ∉ fieldNames rest := by
  obtain ⟨rest, hrest⟩ := hheader.size_at
  have hjoin : Schema.join [header, kind.schema]
      = FieldSpec.u32 "size" :: (rest ++ kind.schema.fields) := by
    rw [Schema.join_pair, hrest, List.cons_append]
  have hdistinct := (hheader.wellFormed kind).distinct
  rw [hjoin] at hdistinct
  exact ⟨_, hjoin, (Layout.distinctFields_cons hdistinct).1.1⟩

theorem size_at_join (kind : TransactionKind) :
    ScalarAt (Schema.join [header, kind.schema]) 0 "size" .u32 := by
  obtain ⟨rest, hjoin, -⟩ := hheader.join_eq kind
  rw [hjoin]
  exact ⟨[], rest, rfl, rfl, rfl⟩

theorem size_layout {kind : TransactionKind} {layout : Layout.Kind}
    (h : ⟨"size", layout⟩ ∈ Schema.join [header, kind.schema]) : layout = .scalar .u32 := by
  obtain ⟨rest, hjoin, hrest⟩ := hheader.join_eq kind
  rw [hjoin] at h
  rcases List.mem_cons.mp h with heq | hlater
  · cases heq
    rfl
  · exact absurd (Layout.mem_fieldNames hlater) hrest

theorem kind_at_join (kind : TransactionKind) :
    ScalarAt (Schema.join [header, kind.schema]) kindPosition "type" .u16 := by
  rw [Schema.join_pair]
  exact hheader.kind_at.append _

theorem four_le : 4 ≤ size := by
  obtain ⟨rest, hrest⟩ := hheader.size_at
  rw [← hheader.least, hrest]
  exact Nat.le_add_right 4 (leastFields rest)

theorem length_raw {kind : TransactionKind} {values : FieldSet}
    (h : Fits values (Schema.join [header, kind.schema])) :
    (rawFields values (Schema.join [header, kind.schema])).length
      = size + (rawFields values kind.schema.fields).length := by
  rw [Schema.join_pair, Layout.fits_append] at h
  rw [Schema.join_pair, Layout.rawFields_append, List.length_append,
    Layout.length_rawFields_of_fixed _ hheader.fixed h.1.shaped, hheader.least]

end IsHeader

theorem Payload.le_length_of_kindAt {position size : Nat} {kind : TransactionKind} {bytes : Bytes}
    (h : kindAt position size bytes = .ok kind) : size ≤ bytes.length := by
  unfold kindAt at h
  split at h
  · cases h
  · omega

theorem Payload.length_of_kindAt {position size : Nat} {kind : TransactionKind} {bytes : Bytes}
    (hkind : kindAt position size bytes = .ok kind) (hsize : checkSize bytes = .ok ()) :
    size ≤ bytes.length ∧ declaredSize bytes = bytes.length := by
  refine ⟨le_length_of_kindAt hkind, ?_⟩
  unfold checkSize at hsize
  split at hsize
  · assumption
  · cases hsize

theorem Payload.withSize_eq_ok {payload bytes : Bytes} : Payload.withSize payload = .ok bytes
    ↔ payload.length < 2 ^ 32
      ∧ bytes = LittleEndian.encode 4 payload.length ++ payload.drop 4 := by
  unfold Payload.withSize
  split
  · rename_i hshort
    rw [Except.ok.injEq, and_iff_right hshort, eq_comm]
  · rename_i hlong
    exact iff_of_false nofun fun h => hlong h.1

/-! ## Framed payloads -/

/-- Bytes that are the flat form of values, then others, and declare their size and kind. -/
structure Framed (header : Schema) (kind : TransactionKind) (values : FieldSet)
    (post bytes : Bytes) : Prop where
  fits : Fits values (Schema.join [header, kind.schema])
  bytes_eq : bytes = rawFields values (Schema.join [header, kind.schema]) ++ post
  size_eq : values.get? "size" = some (.number bytes.length)
  kind_eq : values.get? "type" = some (.coded kind)
  length_lt : bytes.length < 2 ^ 32

namespace Framed

variable {header : Schema} {kindPosition size : Nat} {kind : TransactionKind}
  {values others : FieldSet} {post bytes : Bytes}

theorem fits_pair (h : Framed header kind values post bytes) :
    Fits values header.fields ∧ Fits values kind.schema.fields := by
  have hfits := h.fits
  rw [Schema.join_pair, Layout.fits_append] at hfits
  exact hfits

/-! ### Reading -/

theorem kindAt_iff (hheader : IsHeader header kindPosition size)
    (hfits : Fits values (Schema.join [header, kind.schema])) {other : TransactionKind} :
    Payload.kindAt kindPosition size (rawFields values (Schema.join [header, kind.schema]) ++ post)
      = .ok other ↔ values.get? "type" = some (.coded other) := by
  obtain ⟨n, hvalue, hn, hbytes⟩ := (hheader.kind_at_join kind).bytes_eq hfits post
  have hlength := hheader.length_raw hfits
  have hcode : LittleEndian.decode (LittleEndian.encode Width.u16.bytes n.toNat) = n.toNat := by
    rw [LittleEndian.decode_encode, Nat.mod_eq_of_lt hn]
  have htoNat := Layout.toNat_toUInt64
    (Nat.lt_of_lt_of_le (Coded.Narrow.code_lt other) (by decide))
  rw [Payload.kindAt, if_neg (by rw [List.length_append]; omega), hvalue]
  simp only [Value.coded, Value.number, Option.some.injEq, Value.scalar.injEq]
  rw [show (2 : Nat) = Width.u16.bytes from rfl, hbytes, hcode]
  constructor
  · intro h
    split at h
    · rename_i found hfound
      cases h
      rw [Coded.code_of_ofCode? hfound, Nat.toUInt64, UInt64.ofNat_toNat]
    · cases h
  · rintro rfl
    rw [htoNat, Coded.ofCode?_code]

theorem checkSize_iff (hheader : IsHeader header kindPosition size)
    (hfits : Fits values (Schema.join [header, kind.schema]))
    (hbytes : bytes = rawFields values (Schema.join [header, kind.schema]) ++ post) :
    Payload.checkSize bytes = .ok ()
      ↔ values.get? "size" = some (.number bytes.length) ∧ bytes.length < 2 ^ 32 := by
  obtain ⟨n, hvalue, hn, hfront⟩ := (hheader.size_at_join kind).bytes_eq hfits post
  have hdeclared : Payload.declaredSize bytes = n.toNat := by
    rw [List.drop_zero, ← hbytes] at hfront
    rw [Payload.declaredSize, show (4 : Nat) = Width.u32.bytes from rfl, hfront,
      LittleEndian.decode_encode, Nat.mod_eq_of_lt hn]
  rw [Payload.checkSize, hdeclared, hvalue]
  simp only [Value.number, Option.some.injEq, Value.scalar.injEq]
  constructor
  · intro h
    split at h
    · rename_i heq
      rw [← heq]
      exact ⟨by rw [Nat.toUInt64, UInt64.ofNat_toNat], hn⟩
    · cases h
  · rintro ⟨rfl, hlt⟩
    rw [Layout.toNat_toUInt64 (by omega), if_pos rfl]

theorem kindAt_eq (hheader : IsHeader header kindPosition size)
    (h : Framed header kind values post bytes) :
    Payload.kindAt kindPosition size bytes = .ok kind := by
  rw [h.bytes_eq]
  exact (kindAt_iff hheader h.fits).mpr h.kind_eq

theorem checkSize_eq (hheader : IsHeader header kindPosition size)
    (h : Framed header kind values post bytes) : Payload.checkSize bytes = .ok () :=
  (checkSize_iff hheader h.fits h.bytes_eq).mpr ⟨h.size_eq, h.length_lt⟩

theorem parse_eq (hheader : IsHeader header kindPosition size)
    (h : Framed header kind values post bytes)
    (hend : boundedFields (Schema.join [header, kind.schema]) = true ∨ post = []) :
    Layout.parse (Schema.join [header, kind.schema]) bytes
      = .ok ⟨selectFields values (Schema.join [header, kind.schema]),
        (rawFields values (Schema.join [header, kind.schema])).length⟩ := by
  have hlength := h.length_lt
  have hlimit : (rawFields values (Schema.join [header, kind.schema])).length
      < Layout.positionLimit := by
    rw [h.bytes_eq, List.length_append] at hlength
    rw [Layout.positionLimit]
    omega
  rw [h.bytes_eq]
  exact (hheader.wellFormed kind).parse_of_fits h.fits hend hlimit

theorem same_select (hheader : IsHeader header kindPosition size)
    (h : Framed header kind values post bytes) :
    Same values (selectFields values (Schema.join [header, kind.schema]))
      (Schema.join [header, kind.schema]) :=
  h.fits.nested.same_select (hheader.wellFormed kind).distinct

theorem of_parse (hheader : IsHeader header kindPosition size) {decoded : Layout.Decoded}
    (hkind : Payload.kindAt kindPosition size bytes = .ok kind)
    (hsize : Payload.checkSize bytes = .ok ())
    (hparse : Layout.parse (Schema.join [header, kind.schema]) bytes = .ok decoded) :
    Framed header kind decoded.fields (bytes.drop decoded.extent) bytes
      ∧ decoded.extent
        = (rawFields decoded.fields (Schema.join [header, kind.schema])).length := by
  obtain ⟨⟨-, hfits⟩, hextent, hbytes⟩ := (hheader.wellFormed kind).fits_of_parse hparse
  obtain ⟨hdeclared, hlength⟩ := (checkSize_iff hheader hfits hbytes).mp hsize
  rw [hbytes] at hkind
  exact ⟨⟨hfits, hbytes, hdeclared, (kindAt_iff hheader hfits).mp hkind, hlength⟩, hextent⟩

/-! ### Writing -/

theorem length_withSize {payload : Bytes} (hlength : 4 ≤ payload.length)
    (h : Payload.withSize payload = .ok bytes) : bytes.length = payload.length := by
  obtain ⟨-, rfl⟩ := Payload.withSize_eq_ok.mp h
  rw [List.length_append, LittleEndian.length_encode, List.length_drop]
  omega

/-- Whether a payload is too long for its size to be declared depends on its length only. -/
theorem withSize_of_length_eq {payload : Bytes} (payload' : Bytes)
    (hlength : payload'.length = payload.length) (hfour : 4 ≤ payload.length)
    (h : Payload.withSize payload = .ok bytes) :
    ∃ bytes', Payload.withSize payload' = .ok bytes' ∧ bytes'.length = bytes.length := by
  have hshort := (Payload.withSize_eq_ok.mp h).1
  rw [← hlength] at hshort
  have h' : Payload.withSize payload' = .ok _ := Payload.withSize_eq_ok.mpr ⟨hshort, rfl⟩
  refine ⟨_, h', ?_⟩
  rw [length_withSize (hlength ▸ hfour) h', length_withSize hfour h, hlength]

theorem of_raw (hheader : IsHeader header kindPosition size)
    (hfits : Fits values (Schema.join [header, kind.schema]))
    (hkind : values.get? "type" = some (.coded kind))
    (hwrite : Payload.withSize (rawFields values (Schema.join [header, kind.schema]) ++ post)
      = .ok bytes) :
    Framed header kind (("size", .number bytes.length) :: values) post bytes := by
  obtain ⟨rest, hjoin, hunused⟩ := hheader.join_eq kind
  obtain ⟨n, hn, -, -⟩ := (hheader.size_at_join kind).bytes_eq hfits []
  have htotal : bytes.length
      = (rawFields values (Schema.join [header, kind.schema]) ++ post).length := by
    have hleast := hheader.four_le
    refine length_withSize ?_ hwrite
    rw [List.length_append, hheader.length_raw hfits]
    omega
  obtain ⟨hlength, hbytes⟩ := Payload.withSize_eq_ok.mp hwrite
  -- the first field of the flat form is the four bytes that are replaced
  have hraw (fields : FieldSet) (n : UInt64) (hn : fields.get? "size" = some (.scalar n)) :
      rawFields fields (Schema.join [header, kind.schema])
        = LittleEndian.encode 4 n.toNat ++ rawFields fields rest := by
    rw [hjoin, FieldSpec.u32, rawFields, hn]
    rfl
  have hsame : rawFields (("size", .number bytes.length) :: values) rest
      = rawFields values rest := by
    refine Layout.rawFields.congr fun name hname => get?_cons_ne ?_ _ _
    rintro rfl
    exact hunused hname
  rw [← htotal] at hlength hbytes
  have htoNat := Layout.toNat_toUInt64 (Nat.lt_trans hlength (by decide))
  refine ⟨?_, ?_, get?_cons_self _ _ _, ?_, hlength⟩
  · refine hfits.replace "size" (hheader.size_unused kind) (hheader.wellFormed kind).closed
      (fun name _ hne => (get?_cons_ne hne _ _).symm) fun layout hlayout => ?_
    rw [hheader.size_layout hlayout]
    refine ⟨_, get?_cons_self _ _ _, trivial, ⟨_, rfl, ?_⟩, fun _ => trivial⟩
    rw [htoNat]
    exact hlength
  · have hsize : get? (("size", .number bytes.length) :: values) "size"
        = some (.scalar bytes.length.toUInt64) := get?_cons_self _ _ _
    rw [hraw _ _ hsize, hsame, htoNat, List.append_assoc]
    rw [hraw values n hn, List.append_assoc,
      List.drop_left' (LittleEndian.length_encode _ _)] at hbytes
    exact hbytes
  · rw [get?_cons_ne (by decide)]
    exact hkind

theorem of_flat (hheader : IsHeader header kindPosition size) {flat : Bytes}
    (hnested : Nested values (Schema.join [header, kind.schema]))
    (hkind : values.get? "type" = some (.coded kind))
    (hflat : Payload.flat [header, kind.schema] values = .ok flat)
    (hwrite : Payload.withSize (flat ++ post) = .ok bytes) :
    (Fits values (Schema.join [header, kind.schema])
      ∧ flat = rawFields values (Schema.join [header, kind.schema]))
      ∧ Framed header kind (("size", .number bytes.length) :: values) post bytes := by
  obtain ⟨table, htable, hflat⟩ := bind_eq_ok.mp hflat
  obtain ⟨hfits, rfl⟩ := (hheader.wellFormed kind).fits_of_flatten hnested
    (lift_eq_ok.mp htable) (lift_eq_ok.mp hflat)
  exact ⟨⟨hfits, rfl⟩, of_raw hheader hfits hkind hwrite⟩

theorem flat_of_fits (hheader : IsHeader header kindPosition size)
    (hfits : Fits values (Schema.join [header, kind.schema])) {factor : Nat}
    (hdense : denseFields factor (Schema.join [header, kind.schema]) = true)
    (hlimit : factor * (rawFields values (Schema.join [header, kind.schema])).length
      + slackFields (Schema.join [header, kind.schema]) < slotLimit) :
    Payload.flat [header, kind.schema] values
      = .ok (rawFields values (Schema.join [header, kind.schema])) := by
  obtain ⟨table, htable, hflat⟩ :=
    (hheader.wellFormed kind).flatten_of_fits hfits hdense hlimit
  exact bind_eq_ok.mpr ⟨table, lift_eq_ok.mpr htable, lift_eq_ok.mpr hflat⟩

/-- Values that differ in the declared size only have flat forms of the same size. -/
theorem length_raw_eq (hheader : IsHeader header kindPosition size)
    (hfits : Fits values (Schema.join [header, kind.schema]))
    (hfits' : Fits others (Schema.join [header, kind.schema]))
    (hsame : ∀ name ∈ fieldNames (Schema.join [header, kind.schema]), name ≠ "size" →
      values.get? name = others.get? name) :
    (rawFields values (Schema.join [header, kind.schema])).length
      = (rawFields others (Schema.join [header, kind.schema])).length := by
  refine Layout.length_rawFields_eq hfits.shaped hfits'.shaped fun name layout hmem => ?_
  by_cases hname : name = "size"
  · subst hname
    rw [hheader.size_layout hmem]
    exact .inl rfl
  · exact .inr (hsame name (Layout.mem_fieldNames hmem) hname)

theorem ext (hheader : IsHeader header kindPosition size) {bytes' : Bytes}
    (h : Framed header kind values post bytes) (h' : Framed header kind others post bytes')
    (hsame : ∀ name ∈ fieldNames (Schema.join [header, kind.schema]), name ≠ "size" →
      values.get? name = others.get? name) : bytes = bytes' := by
  have hraw := length_raw_eq hheader h.fits h'.fits hsame
  have hlength : bytes.length = bytes'.length := by
    rw [h.bytes_eq, h'.bytes_eq, List.length_append, List.length_append, hraw]
  rw [h.bytes_eq, h'.bytes_eq]
  refine congrArg (· ++ post) (Layout.rawFields.congr fun name hname => ?_)
  by_cases hne : name = "size"
  · rw [hne, h.size_eq, h'.size_eq, hlength]
  · exact hsame name hname hne

end Framed

end LedgerTx
