import LedgerTx.Proofs.Draft.Build
import LedgerTx.Proofs.Transaction.Regions

/-!
# Bodies that tell their target again

The body of metadata changes or of list changes starts with a code for what
it is about, which the kind in the header tells already.  Metadata changes
are read with the code of their kind only.  List changes are read with the
code of any list, so changes of mosaics can be read for a list of addresses;
what is built always has a code of its kind.
-/

namespace LedgerTx

open Layout (FieldSet FieldSpec Value Schema Same Fits rawFields)

/-! ## Codes of a kind -/

def FilterTarget.HasCode (target : FilterTarget) (code : UInt8) : Prop :=
  ∃ type : FilterType, type.target = target ∧ code.toNat = Coded.code type

theorem FilterTarget.hasCode_iff {target : FilterTarget} {type : FilterType}
    {code : UInt8} (h : code.toNat = Coded.code type) :
    target.HasCode code ↔ type.target = target := by
  constructor
  · rintro ⟨other, htarget, hcode⟩
    rw [Coded.code_inj (h.symm.trans hcode)]
    exact htarget
  · exact fun htarget => ⟨type, htarget, h⟩

/-- The first byte of a body names the target of its kind, if the kind has any. -/
def TransactionKind.NamedBy (code : UInt8) : TransactionKind → Prop
  | modifyAddressMetadata => code.toNat = Coded.code MetadataType.address
  | modifyMosaicMetadata => code.toNat = Coded.code MetadataType.mosaic
  | modifyNamespaceMetadata => code.toNat = Coded.code MetadataType.namespaced
  | accountPropertiesAddress => FilterTarget.address.HasCode code
  | accountPropertiesMosaic => FilterTarget.mosaic.HasCode code
  | accountPropertiesEntityType => FilterTarget.kind.HasCode code
  | _ => True

namespace Operation

def targetCode? : Operation → Option Nat
  | metadataChanges metadata => some (Coded.code metadata.target.type)
  | accountFilter filter => some (Coded.code filter.type)
  | _ => none

/-- List changes are of what their list holds; every other operation is consistent. -/
def Consistent : Operation → Prop
  | accountFilter filter => filter.type.target = filter.changes.target
  | _ => True

theorem namedBy_of_targetCode?_eq_none {operation : Operation} (h : operation.targetCode? = none)
    (code : UInt8) : operation.kind.NamedBy code ∧ operation.Consistent := by
  cases operation with
  | metadataChanges _ | accountFilter _ => cases h
  | nameLink link =>
      obtain ⟨_, _, _ | _⟩ := link <;> exact ⟨trivial, trivial⟩
  | metadataEntry entry =>
      obtain ⟨_, _, _ | _ | _, _, _⟩ := entry <;> exact ⟨trivial, trivial⟩
  | _ => exact ⟨trivial, trivial⟩

theorem namedBy_iff {operation : Operation} {code : UInt8}
    (h : operation.targetCode? = some code.toNat) :
    operation.kind.NamedBy code ↔ operation.Consistent := by
  cases operation with
  | metadataChanges metadata =>
      obtain ⟨_ | _ | _, _⟩ := metadata <;>
        exact iff_of_true (Option.some.inj h).symm trivial
  | accountFilter filter =>
      obtain ⟨type, _ | _ | _⟩ := filter <;>
        exact FilterTarget.hasCode_iff (Option.some.inj h).symm
  | _ => cases h

theorem field_of_targetCode? {operation : Operation} {n : Nat}
    (h : operation.targetCode? = some n) : n < 256 ∧ ∃ name rest,
      operation.kind.schema.fields = FieldSpec.u8 name :: rest
        ∧ ∀ network, (operation.fields network).get? name = some (.number n)
          ∧ ∀ fields, operation.kind.Kept network fields := by
  cases operation with
  | metadataChanges metadata =>
      cases h
      refine ⟨by cases metadata.target.type <;> decide, "metadata_type", ?_⟩
      obtain ⟨_ | _ | _, _⟩ := metadata <;> exact ⟨_, rfl, fun _ => ⟨rfl, fun _ => trivial⟩⟩
  | accountFilter filter =>
      cases h
      refine ⟨by cases filter.type <;> decide, "property_type", ?_⟩
      obtain ⟨_, _ | _ | _⟩ := filter <;> exact ⟨_, rfl, fun _ => ⟨rfl, fun _ => trivial⟩⟩
  | _ => cases h

end Operation

/-! ## Codes in payloads -/

namespace Framed

variable {header : Schema} {kindPosition size : Nat} {kind : TransactionKind}
  {values : FieldSet} {post bytes : Bytes}

theorem getElem?_size (hheader : IsHeader header kindPosition size)
    (h : Framed header kind values post bytes) {name : String} {rest : List FieldSpec}
    (hschema : kind.schema.fields = FieldSpec.u8 name :: rest) {n : UInt64}
    (hvalue : values.get? name = some (.scalar n)) :
    ∃ code : UInt8, bytes[size]? = some code ∧ code.toNat = n.toNat := by
  have hfirst : ScalarAt (Schema.join [header, kind.schema]) size name .u8 :=
    ⟨header.fields, rest, by rw [Schema.join_pair, hschema]; rfl, hheader.fixed, hheader.least⟩
  obtain ⟨m, hm, hlt, hbyte⟩ := hfirst.bytes_eq h.fits post
  cases hvalue.symm.trans hm
  rw [← h.bytes_eq] at hbyte
  have hfound : (((bytes.drop size).take 1)[0]? : Option UInt8) = some n.toNat.toUInt8 :=
    congrArg (·[0]?) hbyte
  refine ⟨n.toNat.toUInt8, ?_, ?_⟩
  · rw [List.getElem?_take_of_lt Nat.zero_lt_one, List.getElem?_drop] at hfound
    exact hfound
  · exact Nat.mod_eq_of_lt hlt

theorem targetCode_of_read (hheader : IsHeader header kindPosition size)
    (h : Framed header kind values post bytes)
    {read : FieldSet → Except PayloadError Operation} {operation : Operation}
    (hreader : kind.reader = .operation read) (hread : read values = .ok operation) {n : Nat}
    (hcode : operation.targetCode? = some n) :
    ∃ code : UInt8, bytes[size]? = some code ∧ code.toNat = n := by
  obtain ⟨rfl, -, -, -, hsame⟩ := Operation.readFrom_of_read hreader h.fits_pair.2 hread
  obtain ⟨hn, name, rest, hschema, hfields⟩ := Operation.field_of_targetCode? hcode
  obtain ⟨hvalue, hkept⟩ := hfields .testNet
  have hmem : name ∈ Layout.fieldNames operation.kind.schema.fields := by
    rw [hschema]
    exact List.mem_cons_self
  have hfound := (hsame .testNet (hkept values) name hmem).trans hvalue
  obtain ⟨code, hbyte, hvalue⟩ := h.getElem?_size hheader hschema hfound
  exact ⟨code, hbyte, hvalue.trans (Layout.toNat_toUInt64 (Nat.lt_trans hn (by decide)))⟩

theorem namedBy_iff (hheader : IsHeader header kindPosition size)
    (h : Framed header kind values post bytes)
    {read : FieldSet → Except PayloadError Operation} {operation : Operation}
    (hreader : kind.reader = .operation read) (hread : read values = .ok operation) :
    (∀ code, bytes[size]? = some code → operation.kind.NamedBy code) ↔ operation.Consistent := by
  cases htarget : operation.targetCode? with
  | none =>
      have hnone := Operation.namedBy_of_targetCode?_eq_none htarget
      exact iff_of_true (fun code _ => (hnone code).1) (hnone 0).2
  | some n =>
      obtain ⟨code, hbyte, rfl⟩ := h.targetCode_of_read hheader hreader hread htarget
      rw [← Operation.namedBy_iff htarget]
      constructor
      · exact fun hall => hall code hbyte
      · intro hnamed other hother
        cases hbyte.symm.trans hother
        exact hnamed

end Framed

/--
Behind a header of the given size stands the code of an operation, and it
names the kind of the operation exactly when the operation is consistent.
-/
structure Operation.ToldBy (size : Nat) (bytes : Bytes) (operation : Operation) : Prop where
  code : ∀ n, operation.targetCode? = some n →
    ∃ code : UInt8, bytes[size]? = some code ∧ code.toNat = n
  named_iff : (∀ code, bytes[size]? = some code → operation.kind.NamedBy code)
    ↔ operation.Consistent

theorem Embedded.toldBy_of_read {bytes : Bytes} {embedded : Embedded}
    (h : read bytes = .ok embedded) : ∃ operation, embedded.body = .operation operation
      ∧ Payload.kindAt Payload.embeddedKindPosition Payload.embeddedHeaderSize bytes
        = .ok operation.kind
      ∧ operation.ToldBy Payload.embeddedHeaderSize bytes := by
  obtain ⟨kind, readBody, decoded, operation, hkind, hreader, hsize, hparse, -, -, hread, hbody⟩ :=
    read_eq_ok.mp h
  have hframed := (Framed.of_parse isHeader_embedded hkind hsize hparse).1
  obtain ⟨rfl, -⟩ := Operation.readFrom_of_read hreader hframed.fits_pair.2 hread
  exact ⟨operation, hbody, hkind, fun _ => hframed.targetCode_of_read isHeader_embedded hreader
    hread, hframed.namedBy_iff isHeader_embedded hreader hread⟩

namespace Transaction

theorem toldBy_of_read {bytes : Bytes} {tx : Transaction} (h : read bytes = .ok tx) :
    Payload.kind bytes = .ok tx.kind
      ∧ ∀ operation, tx.body = .operation operation →
        operation.ToldBy Payload.headerSize bytes := by
  obtain ⟨kind, decoded, hkind, hsize, hparse, -, hread, -⟩ := read_eq_ok.mp h
  have hframed := (Framed.of_parse isHeader_transaction hkind hsize hparse).1
  obtain rfl : tx.kind = kind := kind_of_readBody hframed.fits_pair.2 hread
  refine ⟨hkind, fun operation hbody => ?_⟩
  rw [hbody] at hread
  rcases readBody_eq_ok.mp hread with ⟨readBody, _, hreader, hoperation, -, hsame⟩
    | ⟨_, _, _, _, -, -, -, -, hsame⟩
  · cases hsame
    exact ⟨fun _ => hframed.targetCode_of_read isHeader_transaction hreader hoperation,
      hframed.namedBy_iff isHeader_transaction hreader hoperation⟩
  · cases hsame

theorem pieces_of_read {bytes : Bytes} {tx : Transaction} (h : read bytes = .ok tx)
    {bonded : Bool} {inner : List Embedded} {cosignatures : List Cosignature}
    (hbody : tx.body = .aggregate bonded inner cosignatures) :
    ∃ pieces : List Bytes,
      List.Forall₂ (fun piece embedded => Embedded.read piece = .ok embedded) pieces inner
      ∧ (bytes.drop (Payload.headerSize + 4)).take pieces.flatten.length = pieces.flatten := by
  obtain ⟨kind, decoded, hkind, hsize, hparse, -, hread, -⟩ := read_eq_ok.mp h
  have hframed := (Framed.of_parse isHeader_transaction hkind hsize hparse).1
  obtain ⟨hhead, hfits⟩ := hframed.fits_pair
  obtain rfl : tx.kind = kind := kind_of_readBody hfits hread
  rw [hbody] at hread
  rcases readBody_eq_ok.mp hread with ⟨_, _, -, -, -, hother⟩
    | ⟨_, joined, _, _, -, hjoined, hinner, -, hsame⟩
  · cases hother
  cases hsame
  obtain ⟨hflatten, hpieces⟩ := Embedded.pieces_of_readAll hinner
  -- the values of the body are those of the joined pieces
  have hbytes := hframed.bytes_eq
  rw [(parts_of_aggregate hbody).1] at hfits hbytes
  obtain ⟨found, hvalues, -⟩ := same_aggregateValues hfits
  cases hjoined.symm.trans (hvalues "transactions" (by decide))
  have hfront := Layout.length_rawFields_of_fixed _ isHeader_transaction.fixed hhead.shaped
  rw [isHeader_transaction.least] at hfront
  rw [Schema.join_pair, Layout.rawFields_append, Layout.rawFields.congr hvalues,
    rawFields_aggregateValues, List.append_assoc] at hbytes
  refine ⟨_, hpieces, ?_⟩
  rw [hflatten, hbytes, ← List.drop_drop, List.drop_left' hfront, List.append_assoc,
    List.drop_left' (LittleEndian.length_encode _ _), List.take_left]

end Transaction

/-! ## What can be read and what is built -/

/-- Some payloads and some pieces are read as the operation, and are what it is written as. -/
def Operation.Readable (operation : Operation) : Prop :=
  (∀ network version maxFee deadline, ∃ bytes,
    Transaction.write ⟨network, version, maxFee, deadline, none, .operation operation⟩ = .ok bytes
      ∧ Transaction.read bytes
        = .ok ⟨network, version, maxFee, deadline, none, .operation operation⟩)
  ∧ ∀ network version, ∃ piece, Embedded.write ⟨network, version, .operation operation⟩ = .ok piece
    ∧ Embedded.read piece = .ok ⟨network, version, .operation operation⟩

/-- List changes of any target are written and read, whatever their list holds. -/
theorem AccountFilter.readable {filter : AccountFilter} (h : filter.changes.length < 256) :
    (Operation.accountFilter filter).Readable := by
  have hwritable : (Operation.accountFilter filter).Writable := ⟨h, Nat.zero_le _⟩
  constructor
  · intro network version maxFee deadline
    have haccepted : Transaction.Accepted ⟨network, version, maxFee, deadline, none,
        .operation (.accountFilter filter)⟩ := fun _ hkey => nomatch hkey
    have hbody : Transaction.body ⟨network, version, maxFee, deadline, none,
        .operation (.accountFilter filter)⟩ = .operation (.accountFilter filter) := rfl
    obtain ⟨bytes, hwrite⟩ := Transaction.write_of_writable hbody hwritable
    exact ⟨bytes, hwrite, Transaction.read_of_write haccepted hwrite⟩
  · intro network version
    obtain ⟨piece, hwrite⟩ := Embedded.write_of_writable hwritable network version
    exact ⟨piece, hwrite, Embedded.read_of_write (fun _ hkey => nomatch hkey) hwrite⟩

theorem Draft.consistent_of_body {draft : Draft} {operation : Operation}
    (h : draft.body = .ok (.operation operation)) : operation.Consistent := by
  cases draft with
  | accountFilter filter =>
      obtain ⟨hcheck, hbody⟩ := checked_eq_ok.mp h
      cases hbody
      exact (AccountFilter.check_eq_ok.mp hcheck).1
  | levyChange _ =>
      obtain ⟨-, h⟩ := then_eq_ok.mp h
      cases h
      trivial
  | levyRemoval _ | accountLink _ | secretLock _ =>
      cases h
      trivial
  | registration _ _ | multisig _ | fundsLock _ | metadataEntry _ =>
      obtain ⟨_, -, hbody⟩ := completed_eq_ok.mp h
      cases hbody
      trivial
  | aggregate _ _ =>
      obtain ⟨-, -, hbody⟩ := bundle_eq_ok.mp h
      cases hbody
  | _ =>
      obtain ⟨-, hbody⟩ := checked_eq_ok.mp h
      cases hbody
      trivial

/--
In every payload that is read, and in every piece of an aggregate, the kind
in the header is the one of the operation, and its code is behind the header.
The code of metadata changes names the kind; that of list changes does
exactly when the list holds what the changes are of.  List changes of
anything else are read and written all the same, but not built.
-/
theorem Payload.target_of_read (bytes : Bytes) (filter : AccountFilter) (draft : Draft) :
    (∀ tx, Transaction.read bytes = .ok tx →
      kind bytes = .ok tx.kind
        ∧ (∀ operation, tx.body = .operation operation → operation.ToldBy headerSize bytes)
        ∧ ∀ bonded inner cosignatures, tx.body = .aggregate bonded inner cosignatures →
          ∃ pieces : List Bytes,
            List.Forall₂ (fun piece embedded => Embedded.read piece = .ok embedded) pieces inner
            ∧ (bytes.drop (headerSize + 4)).take pieces.flatten.length = pieces.flatten)
    ∧ (∀ embedded, Embedded.read bytes = .ok embedded →
      ∃ operation, embedded.body = .operation operation
        ∧ kindAt embeddedKindPosition embeddedHeaderSize bytes = .ok operation.kind
        ∧ operation.ToldBy embeddedHeaderSize bytes)
    ∧ (filter.changes.length < 256 → (Operation.accountFilter filter).Readable)
    ∧ ∀ (settings : Settings) (envelope : Envelope) (operation : Operation),
      (∀ now tx, draft.build settings envelope now = .ok tx → tx.body = .operation operation →
        operation.Consistent)
      ∧ ∀ embedded, draft.buildEmbedded settings envelope = .ok embedded →
        embedded.body = .operation operation → operation.Consistent := by
  refine ⟨fun tx h => ?_, fun _ => Embedded.toldBy_of_read, AccountFilter.readable,
    fun settings envelope operation => ⟨?_, ?_⟩⟩
  · obtain ⟨hkind, htold⟩ := Transaction.toldBy_of_read h
    exact ⟨hkind, htold, fun _ _ _ => Transaction.pieces_of_read h⟩
  · intro now tx htx hoperation
    obtain ⟨body, _, _, hbody, -, -, -, rfl⟩ := Draft.build_eq_ok.mp htx
    cases hoperation
    exact Draft.consistent_of_body hbody
  · intro embedded hembedded hoperation
    obtain ⟨body, hbody, -, rfl⟩ := Draft.buildEmbedded_eq_ok.mp hembedded
    cases hoperation
    exact Draft.consistent_of_body hbody

def AccountFilter.mismatched : AccountFilter := ⟨.allowAddress, .mosaic [⟨.add, ⟨5⟩⟩]⟩

def Transaction.mismatched : Transaction :=
  ⟨.mijinTest, 1, 100, ⟨1000⟩, none, .operation (.accountFilter .mismatched)⟩

def Payload.mismatched : Bytes :=
  LittleEndian.encode 4 135 ++ List.replicate 100 0 ++ [0x01, 0x90, 0x50, 0x42]
    ++ LittleEndian.encode 8 100 ++ LittleEndian.encode 8 1000 ++ [0x01, 0x01, 0x00]
    ++ LittleEndian.encode 8 5

theorem Transaction.write_mismatched : mismatched.write = .ok Payload.mismatched := by
  have hbytes : mismatched.write.toOption = some Payload.mismatched := by decide +kernel
  exact eq_ok_of_toOption hbytes

theorem Transaction.read_mismatched : read Payload.mismatched = .ok mismatched := by
  have haccepted : mismatched.Accepted := fun _ hkey => nomatch hkey
  exact read_of_write haccepted write_mismatched

theorem Payload.read_with_other_target :
    Transaction.read Payload.mismatched = .ok .mismatched
      ∧ Payload.kind Payload.mismatched = .ok .accountPropertiesMosaic
      ∧ Payload.mismatched[headerSize]? = some 1
      ∧ ¬ TransactionKind.accountPropertiesMosaic.NamedBy 1
      ∧ AccountFilter.mismatched.type.target ≠ AccountFilter.mismatched.changes.target := by
  refine ⟨Transaction.read_mismatched, (Transaction.toldBy_of_read Transaction.read_mismatched).1,
    by decide +kernel, ?_, by decide⟩
  rintro ⟨type, htarget, hcode⟩
  cases type with
  | allowMosaic | blockMosaic => cases hcode
  | _ => cases htarget

def AccountFilter.matched : AccountFilter := { mismatched with type := .blockMosaic }

theorem Payload.target_of_read_mismatched :
    Payload.kind Payload.mismatched = .ok .accountPropertiesMosaic
      ∧ (∃ code : UInt8, Payload.mismatched[headerSize]? = some code ∧ code.toNat = 1)
      ∧ ¬ (∀ code, Payload.mismatched[headerSize]? = some code →
        TransactionKind.accountPropertiesMosaic.NamedBy code)
      ∧ (∃ piece : Bytes, Embedded.read piece = .ok .levyRemoval
        ∧ kindAt embeddedKindPosition embeddedHeaderSize piece = .ok .removeMosaicLevy)
      ∧ (∃ bytes pieces, Transaction.read bytes = .ok .cosignedAggregate
        ∧ List.Forall₂ (fun piece embedded => Embedded.read piece = .ok embedded) pieces
          [Embedded.levyRemoval])
      ∧ (Operation.accountFilter .mismatched).Readable
      ∧ ∃ tx, (Draft.accountFilter .matched).build Draft.freeSettings Draft.fixedEnvelope 0
          = .ok tx ∧ (Operation.accountFilter .matched).Consistent := by
  obtain ⟨hread, -, hreadable, hbuilt⟩ :=
    target_of_read Payload.mismatched .mismatched (.accountFilter .matched)
  obtain ⟨hkind, htold, -⟩ := hread _ Transaction.read_mismatched
  obtain ⟨hcode, hnamed⟩ := htold _ rfl
  obtain ⟨piece, hwritten⟩ := Embedded.write_levyRemoval
  have haccepted : Embedded.levyRemoval.Accepted := fun _ hkey => nomatch hkey
  have hback := Embedded.read_of_write haccepted hwritten
  obtain ⟨bytes, haggregate, -⟩ := Transaction.write_cosignedAggregate
  have hagain := Transaction.read_of_write Transaction.accepted_cosignedAggregate haggregate
  obtain ⟨pieces, hpieces, -⟩ :=
    ((target_of_read bytes .mismatched .ofLevyRemoval).1 _ hagain).2.2 _ _ _ rfl
  obtain ⟨_, hbody, hembedded, -⟩ :=
    (target_of_read piece .mismatched .ofLevyRemoval).2.1 _ hback
  cases hbody
  have hmade : (Draft.accountFilter .matched).build Draft.freeSettings Draft.fixedEnvelope 0
      = .ok ⟨.testNet, 1, 100, ⟨1000⟩, none, .operation (.accountFilter .matched)⟩ := rfl
  refine ⟨hkind, hcode 1 rfl, fun hall => ?_, ⟨piece, hback, hembedded⟩,
    ⟨bytes, pieces, hagain, hpieces⟩, hreadable (by decide), _, hmade,
    (hbuilt _ _ _).1 0 _ hmade rfl⟩
  have hconsistent : AccountFilter.mismatched.type.target = _ := hnamed.mp hall
  cases hconsistent

end LedgerTx
