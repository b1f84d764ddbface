import LedgerTx.Proofs.Transaction.Header

/-!
# Embedded transactions

What is written for an embedded transaction is read as it.  What is read can
be written, in no more bytes, and gives the same bytes when these are in the
form that writing gives.  Payloads one after the other are told apart by the
sizes that they declare.
-/

namespace LedgerTx

open Layout (FieldSet FieldSpec Value Schema Width Kind Same Fits FieldsHold fieldNames rawFields
  selectFields)
open Layout.FieldSet

/-! ## Keys -/

mutual

def Body.keys : Body → List PublicKey
  | .operation operation => operation.keys
  | .aggregate _ inner cosignatures =>
      Embedded.keysOf inner ++ cosignatures.map Cosignature.signer

def Embedded.keys : Embedded → List PublicKey
  | ⟨_, _, body⟩ => Body.keys body

def Embedded.keysOf : List Embedded → List PublicKey
  | [] => []
  | embedded :: rest => Embedded.keys embedded ++ Embedded.keysOf rest

end

def Embedded.Accepted (embedded : Embedded) : Prop :=
  ∀ key ∈ embedded.keys, key.Accepted

theorem Embedded.mem_keysOf {inner : List Embedded} {key : PublicKey} :
    key ∈ keysOf inner ↔ ∃ embedded ∈ inner, key ∈ embedded.keys := by
  induction inner with
  | nil => simp [keysOf]
  | cons embedded rest ih => simp [keysOf, ih]

/-! ## The form that writing gives -/

/--
Whether header and body values are in the form that writing gives: the
reserved word is zero, and the body has this form for the network in the
header.
-/
def Payload.Kept (kind : TransactionKind) (fields : FieldSet) : Prop :=
  fields.get? "reserved" = some (.scalar 0)
    ∧ ∀ network version, networkVersion fields = .ok (network, version) → kind.Kept network fields

theorem Carries.kept {header : Schema} {kind : TransactionKind} {values head body : FieldSet}
    {network : Network} {version : UInt8} (h : Carries header kind values head body)
    (hreserved : head.get? "reserved" = some (.scalar 0))
    (hversion : head.get? "version" = some (.number (versionWord network version)))
    (hnames : "reserved" ∈ fieldNames header.fields ∧ "version" ∈ fieldNames header.fields)
    (hbody : kind.Kept network body) : Payload.Kept kind values := by
  refine ⟨(h.head "reserved" hnames.1 (by decide)).trans hreserved, fun other version' hread => ?_⟩
  have hfound : Payload.networkVersion values = .ok (network, version) :=
    Payload.networkVersion_eq_ok.mpr ((h.head "version" hnames.2 (by decide)).trans hversion)
  cases hread.symm.trans hfound
  exact hbody.congr fun name hname => (h.body name hname).symm

def Embedded.Kept (bytes : Bytes) : Prop :=
  ∀ kind decoded, Payload.kindAt Payload.embeddedKindPosition Payload.embeddedHeaderSize bytes
      = .ok kind →
    Layout.parse (Schema.join [embeddedHeader, kind.schema]) bytes = .ok decoded →
    Payload.Kept kind decoded.fields

/-! ## One embedded transaction -/

theorem isHead_commonValues (network : Network) (version : UInt8) (kind : TransactionKind) :
    IsHead embeddedHeader kind
      (Payload.commonValues (versionWord network version) kind) where
  fits := FieldsHold.fits (.of_inline isHeader_embedded.inline) <|
    .cons rfl (.scalar (by decide)) <| .cons rfl (.scalar (by decide)) <|
    .cons rfl (.number (versionWord_lt network version)) <| .cons rfl (.coded (by decide) kind) .nil
  names := by simp [Payload.commonValues, embeddedHeader, fieldNames, FieldSpec.u32, FieldSpec.u16]
  kind_eq := rfl

theorem Operation.exists_reader (operation : Operation) :
    ∃ read, operation.kind.reader = .operation read := by
  cases operation with
  | nameLink x => obtain ⟨_, _, _ | _⟩ := x <;> exact ⟨_, rfl⟩
  | accountFilter x => obtain ⟨_, _ | _ | _⟩ := x <;> exact ⟨_, rfl⟩
  | metadataChanges x => obtain ⟨_ | _ | _, _⟩ := x <;> exact ⟨_, rfl⟩
  | metadataEntry x => obtain ⟨_, _, _ | _ | _, _, _⟩ := x <;> exact ⟨_, rfl⟩
  | _ => exact ⟨_, rfl⟩

theorem TransactionKind.isAggregate_of_reader {kind : TransactionKind}
    {read : FieldSet → Except PayloadError Operation} (h : kind.reader = .operation read) :
    kind.isAggregate = false := by
  cases kind with
  | aggregateComplete | aggregateBonded => cases h
  | _ => rfl

theorem Operation.isAggregate_kind (operation : Operation) :
    operation.kind.isAggregate = false := by
  obtain ⟨read, hreader⟩ := operation.exists_reader
  exact TransactionKind.isAggregate_of_reader hreader

namespace Embedded

theorem framed_of_write {network : Network} {version : UInt8} {operation : Operation}
    {bytes : Bytes} (h : write ⟨network, version, .operation operation⟩ = .ok bytes) :
    Framed embeddedHeader operation.kind
      (("size", .number bytes.length)
        :: (Payload.commonValues (LedgerTx.versionWord network version) operation.kind
          ++ operation.fields network)) [] bytes := by
  obtain ⟨flat, hflat, hwrite⟩ := bind_eq_ok.mp h
  have hhead := isHead_commonValues network version operation.kind
  rw [← List.append_nil flat] at hwrite
  exact (Framed.of_flat isHeader_embedded
    (hhead.nested_append isHeader_embedded (operation.nested_fields network))
    (hhead.kind_append _) hflat hwrite).2

theorem read_eq_ok {embedded : Embedded} {bytes : Bytes} : read bytes = .ok embedded
    ↔ ∃ kind readBody decoded operation,
      Payload.kindAt Payload.embeddedKindPosition Payload.embeddedHeaderSize bytes = .ok kind
        ∧ kind.reader = .operation readBody ∧ Payload.checkSize bytes = .ok ()
        ∧ Layout.parse (Schema.join [embeddedHeader, kind.schema]) bytes = .ok decoded
        ∧ decoded.extent = bytes.length
        ∧ Payload.networkVersion decoded.fields = .ok (embedded.network, embedded.version)
        ∧ readBody decoded.fields = .ok operation ∧ embedded.body = .operation operation := by
  constructor
  · intro h
    obtain ⟨kind, hkind, h⟩ := bind_eq_ok.mp h
    split at h
    · cases h
    · rename_i readBody hreader
      obtain ⟨⟨⟩, hsize, h⟩ := bind_eq_ok.mp h
      obtain ⟨decoded, hparse, h⟩ := bind_eq_ok.mp h
      split at h
      · cases h
      · rename_i hextent
        obtain ⟨⟨network, version⟩, hversion, h⟩ := bind_eq_ok.mp h
        obtain ⟨operation, hbody, h⟩ := bind_eq_ok.mp h
        cases h
        exact ⟨kind, readBody, decoded, operation, hkind, hreader, hsize, lift_eq_ok.mp hparse,
          not_not.mp hextent, hversion, hbody, rfl⟩
  · obtain ⟨network, version, _⟩ := embedded
    rintro ⟨kind, readBody, decoded, operation, hkind, hreader, hsize, hparse, hextent, hversion,
      hbody, rfl⟩
    refine bind_eq_ok.mpr ⟨kind, hkind, ?_⟩
    rw [hreader]
    refine bind_eq_ok.mpr ⟨(), hsize, bind_eq_ok.mpr ⟨decoded, lift_eq_ok.mpr hparse, ?_⟩⟩
    rw [if_neg (not_not.mpr hextent)]
    exact bind_eq_ok.mpr ⟨_, hversion, bind_eq_ok.mpr ⟨operation, hbody, rfl⟩⟩

theorem read_of_write {embedded : Embedded} {bytes : Bytes} (haccepted : embedded.Accepted)
    (h : embedded.write = .ok bytes) : read bytes = .ok embedded := by
  obtain ⟨network, version, operation | ⟨bonded, inner, cosignatures⟩⟩ := embedded
  · have hframed := framed_of_write h
    obtain ⟨readBody, hreader⟩ := operation.exists_reader
    obtain ⟨decoded, hparse, hextent, -, hcarries⟩ := Carries.parse isHeader_embedded
      (isHead_commonValues network version operation.kind) hframed (.inr rfl)
    have hversion : Payload.networkVersion decoded.fields = .ok (network, version) :=
      Payload.networkVersion_eq_ok.mpr (hcarries.head "version" (by decide) (by decide))
    have hbody : readBody decoded.fields = .ok operation :=
      Operation.read_of_same hreader hcarries.fits_body haccepted hcarries.body
    exact read_eq_ok.mpr ⟨_, readBody, decoded, operation, hframed.kindAt_eq isHeader_embedded,
      hreader, hframed.checkSize_eq isHeader_embedded, hparse, hextent.symm, hversion, hbody, rfl⟩
  · cases h

/-- What is read can be written in no more bytes, and in the same if they have the written form. -/
theorem write_of_read {embedded : Embedded} {bytes : Bytes} (hlength : bytes.length ≤ 2 ^ 28)
    (h : read bytes = .ok embedded) :
    embedded.Accepted ∧ ∃ written, embedded.write = .ok written
      ∧ written.length ≤ bytes.length ∧ (Kept bytes → written = bytes) := by
  obtain ⟨kind, readBody, decoded, operation, hkind, hreader, hsize, hparse, hextent, hversion,
    hbody, hoperation⟩ := read_eq_ok.mp h
  obtain ⟨network, version, _⟩ := embedded
  cases hoperation
  obtain ⟨hframed, hraw⟩ := Framed.of_parse isHeader_embedded hkind hsize hparse
  rw [hextent, List.drop_length] at hframed
  have hfrom := Operation.readFrom_of_read hreader hframed.fits_pair.2 hbody
  obtain ⟨rfl, haccepted, hbodyFits, hbodyLength, hsame⟩ := hfrom
  have hhead := isHead_commonValues network version operation.kind
  have htotal := isHeader_embedded.length_raw hframed.fits
  have hshorter := hbodyLength network
  obtain ⟨flat, written, hflat, hwrite, hwritten, hframed'⟩ :=
    hhead.write isHeader_embedded (hbodyFits network) [] (by
      rw [List.length_nil]
      omega)
  rw [List.append_nil] at hwrite
  refine ⟨haccepted, written, bind_eq_ok.mpr ⟨flat, hflat, hwrite⟩, ?_, fun hkept => ?_⟩
  · rw [List.length_nil] at hwritten
    omega
  · obtain ⟨hreserved, hkeptBody⟩ := hkept _ _ hkind hparse
    refine Carries.eq_written isHeader_embedded hhead hframed ⟨hframed.fits, ?_,
      hsame network (hkeptBody network version hversion)⟩ hframed'
    have hword := Payload.networkVersion_eq_ok.mp hversion
    have hcode := hframed.kind_eq
    simp [embeddedHeader, fieldNames, FieldSpec.u32, FieldSpec.u16, Payload.commonValues,
      get?_cons, hreserved, hword, hcode]

theorem kept_of_write {embedded : Embedded} {bytes : Bytes} (h : embedded.write = .ok bytes) :
    Kept bytes := by
  obtain ⟨network, version, operation | ⟨bonded, inner, cosignatures⟩⟩ := embedded
  · have hframed := framed_of_write h
    obtain ⟨decoded, hparse, -, -, hcarries⟩ := Carries.parse isHeader_embedded
      (isHead_commonValues network version operation.kind) hframed (.inr rfl)
    intro kind other hkind hother
    cases (hframed.kindAt_eq isHeader_embedded).symm.trans hkind
    cases hparse.symm.trans hother
    exact hcarries.kept rfl rfl ⟨by decide, by decide⟩ (operation.kept_fields network)
  · cases h

theorem length_of_write {embedded : Embedded} {bytes : Bytes} (h : embedded.write = .ok bytes) :
    Payload.embeddedHeaderSize ≤ bytes.length ∧ Payload.declaredSize bytes = bytes.length := by
  obtain ⟨network, version, operation | ⟨bonded, inner, cosignatures⟩⟩ := embedded
  · have hframed := framed_of_write h
    exact Payload.length_of_kindAt (hframed.kindAt_eq isHeader_embedded)
      (hframed.checkSize_eq isHeader_embedded)
  · cases h

/-! ## Embedded transactions one after the other -/

/-- The size of the first of some payloads, which they have to hold as a whole. -/
def firstSize (bytes : Bytes) : Except PayloadError Nat :=
  if bytes.length < Payload.embeddedHeaderSize then
    .error (.layout (.truncated Payload.embeddedHeaderSize bytes.length))
  else if Payload.declaredSize bytes < Payload.embeddedHeaderSize then
    .error (.content "transactions" (.innerSize (Payload.declaredSize bytes)))
  else if bytes.length < Payload.declaredSize bytes then
    .error (.layout (.truncated (Payload.declaredSize bytes) bytes.length))
  else .ok (Payload.declaredSize bytes)

theorem readAll_nil : readAll [] = .ok [] := by
  rw [readAll]
  rfl

theorem readAll_turn {bytes : Bytes} (h : bytes ≠ []) :
    readAll bytes = firstSize bytes >>= fun size => read (bytes.take size) >>= fun first =>
      readAll (bytes.drop size) >>= fun rest => .ok (first :: rest) := by
  have hsome : ¬ bytes.isEmpty = true := fun hempty => h (List.isEmpty_iff.mp hempty)
  rw [readAll, if_neg hsome, firstSize]
  split
  · rfl
  · dsimp only
    split
    · rfl
    · split
      · rfl
      · dsimp only [bind, Except.bind]
        cases read (bytes.take (Payload.declaredSize bytes)) with
        | error e => rfl
        | ok first => cases readAll (bytes.drop (Payload.declaredSize bytes)) <;> rfl

theorem bounds_of_firstSize {bytes : Bytes} {size : Nat} (h : firstSize bytes = .ok size) :
    Payload.embeddedHeaderSize ≤ size ∧ size ≤ bytes.length := by
  unfold firstSize at h
  split at h
  · cases h
  · split at h
    · cases h
    · split at h
      · cases h
      · cases h
        omega

def pieces (bytes : Bytes) : List Bytes :=
  if _h : 0 < Payload.declaredSize bytes ∧ 0 < bytes.length then
    bytes.take (Payload.declaredSize bytes) :: pieces (bytes.drop (Payload.declaredSize bytes))
  else []
termination_by bytes.length
decreasing_by simp only [List.length_drop]; omega

theorem length_of_read {embedded : Embedded} {bytes : Bytes} (h : read bytes = .ok embedded) :
    Payload.embeddedHeaderSize ≤ bytes.length ∧ Payload.declaredSize bytes = bytes.length := by
  obtain ⟨kind, _, _, _, hkind, -, hsize, -⟩ := read_eq_ok.mp h
  exact Payload.length_of_kindAt hkind hsize

theorem declaredSize_append {piece : Bytes} (rest : Bytes) (h : 4 ≤ piece.length) :
    Payload.declaredSize (piece ++ rest) = Payload.declaredSize piece := by
  rw [Payload.declaredSize, Payload.declaredSize, List.take_append_of_le_length h]

/-- Payloads that declare their lengths are told apart. -/
theorem pieces_flatten {list : List Bytes} (h : ∀ piece ∈ list,
    Payload.embeddedHeaderSize ≤ piece.length ∧ Payload.declaredSize piece = piece.length) :
    pieces list.flatten = list := by
  induction list with
  | nil => rw [List.flatten_nil, pieces, dif_neg (by simp)]
  | cons piece list ih =>
      obtain ⟨⟨hlong, hdeclared⟩, hrest⟩ := List.forall_mem_cons.mp h
      rw [Payload.embeddedHeaderSize] at hlong
      have hfront : Payload.declaredSize (piece ++ list.flatten) = piece.length := by
        rw [declaredSize_append _ (by omega), hdeclared]
      rw [List.flatten_cons, pieces, hfront, dif_pos (by rw [List.length_append]; omega),
        List.take_left, List.drop_left, ih hrest]

theorem readAll_flatten {list : List Bytes} {inner : List Embedded}
    (h : List.Forall₂ (fun piece embedded => read piece = .ok embedded) list inner) :
    readAll list.flatten = .ok inner := by
  induction h with
  | nil => rw [readAll, List.flatten_nil, List.isEmpty_nil, if_pos rfl]
  | @cons piece embedded list inner hread _ ih =>
      obtain ⟨hlong, hdeclared⟩ := length_of_read hread
      rw [Payload.embeddedHeaderSize] at hlong
      have hfront : Payload.declaredSize (piece ++ list.flatten) = piece.length := by
        rw [declaredSize_append _ (by omega), hdeclared]
      have hnonempty : (piece ++ list.flatten).isEmpty = false := by
        cases piece with
        | nil => cases hlong
        | cons => rfl
      rw [List.flatten_cons, readAll, hnonempty, if_neg Bool.false_ne_true,
        if_neg (by rw [List.length_append, Payload.embeddedHeaderSize]; omega)]
      simp only [hfront]
      rw [dif_neg (by rw [Payload.embeddedHeaderSize]; omega),
        dif_neg (by rw [List.length_append]; omega), List.take_left, List.drop_left, hread]
      simp only [ih]

theorem pieces_of_readAll {bytes : Bytes} {inner : List Embedded} (h : readAll bytes = .ok inner) :
    (pieces bytes).flatten = bytes
      ∧ List.Forall₂ (fun piece embedded => read piece = .ok embedded) (pieces bytes) inner := by
  fun_induction readAll bytes generalizing inner with
  | case1 bytes hempty =>
      cases h
      rw [List.isEmpty_iff.mp hempty, pieces, dif_neg (by simp)]
      exact ⟨rfl, .nil⟩
  | case7 bytes _ hlong size hsize _ first hfirst rest hrest =>
      rename_i ih
      cases h
      obtain ⟨hflatten, hpieces⟩ := ih hrest
      rw [Payload.embeddedHeaderSize] at hlong hsize
      rw [pieces, dif_pos ⟨by omega, by omega⟩, List.flatten_cons, hflatten, List.take_append_drop]
      exact ⟨rfl, .cons hfirst hpieces⟩
  | case2 | case3 | case4 | case5 | case6 => cases h

theorem readAll_of_write {inner : List Embedded} {list : List Bytes}
    (haccepted : ∀ embedded ∈ inner, embedded.Accepted) (h : inner.mapM write = .ok list) :
    readAll list.flatten = .ok inner := by
  apply readAll_flatten
  have hlist := mapM_eq_ok.mp h
  clear h
  induction hlist with
  | nil => exact .nil
  | cons hwrite _ ih =>
      obtain ⟨hhead, hrest⟩ := List.forall_mem_cons.mp haccepted
      exact .cons (read_of_write hhead hwrite) (ih hrest)

theorem pieces_of_write {inner : List Embedded} {list : List Bytes}
    (h : inner.mapM write = .ok list) :
    pieces list.flatten = list ∧ ∀ piece ∈ list, Kept piece := by
  have heach : ∀ piece ∈ list, ∃ embedded : Embedded, embedded.write = .ok piece := by
    have hlist := mapM_eq_ok.mp h
    clear h
    induction hlist with
    | nil => exact fun _ hmem => nomatch hmem
    | cons hwrite _ ih => exact List.forall_mem_cons.mpr ⟨⟨_, hwrite⟩, ih⟩
  constructor
  · apply pieces_flatten
    intro piece hpiece
    obtain ⟨embedded, hwrite⟩ := heach piece hpiece
    exact length_of_write hwrite
  · intro piece hpiece
    obtain ⟨embedded, hwrite⟩ := heach piece hpiece
    exact kept_of_write hwrite

theorem write_of_readEach {list : List Bytes} {inner : List Embedded}
    (hlength : ∀ piece ∈ list, piece.length ≤ 2 ^ 28)
    (h : List.Forall₂ (fun piece embedded => read piece = .ok embedded) list inner) :
    (∀ embedded ∈ inner, embedded.Accepted) ∧ ∃ written, inner.mapM write = .ok written
      ∧ written.flatten.length ≤ list.flatten.length
      ∧ ((∀ piece ∈ list, Kept piece) → written = list) := by
  induction h with
  | nil => exact ⟨(fun _ hmem => nomatch hmem), [], rfl, Nat.le_refl _, fun _ => rfl⟩
  | @cons piece embedded list inner hread _ ih =>
      obtain ⟨hshort, hshortRest⟩ := List.forall_mem_cons.mp hlength
      obtain ⟨haccepted, first, hwrite, hle, hsame⟩ := write_of_read hshort hread
      obtain ⟨hacceptedRest, rest, hwriteRest, hleRest, hsameRest⟩ := ih hshortRest
      refine ⟨List.forall_mem_cons.mpr ⟨haccepted, hacceptedRest⟩, first :: rest, ?_, ?_, ?_⟩
      · rw [mapM_eq_ok] at hwriteRest ⊢
        exact .cons hwrite hwriteRest
      · simp only [List.flatten_cons, List.length_append]
        omega
      · intro hkept
        obtain ⟨hhead, htail⟩ := List.forall_mem_cons.mp hkept
        rw [hsame hhead, hsameRest htail]

theorem write_of_readAll {bytes : Bytes} {inner : List Embedded} (hlength : bytes.length ≤ 2 ^ 28)
    (h : readAll bytes = .ok inner) :
    (∀ embedded ∈ inner, embedded.Accepted) ∧ ∃ list, inner.mapM write = .ok list
      ∧ list.flatten.length ≤ bytes.length
      ∧ ((∀ piece ∈ pieces bytes, Kept piece) → list.flatten = bytes) := by
  obtain ⟨hflatten, hread⟩ := pieces_of_readAll h
  have hlengths : ∀ piece ∈ pieces bytes, piece.length ≤ 2 ^ 28 := by
    intro piece hpiece
    rw [← hflatten] at hlength
    exact Nat.le_trans (List.sublist_flatten_of_mem hpiece).length_le hlength
  obtain ⟨haccepted, list, hwrite, hle, hsame⟩ := write_of_readEach hlengths hread
  rw [hflatten] at hle
  refine ⟨haccepted, list, hwrite, hle, fun hkept => ?_⟩
  rw [hsame hkept, hflatten]

end Embedded

end LedgerTx
