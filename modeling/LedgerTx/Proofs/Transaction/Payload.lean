import LedgerTx.Proofs.Transaction.Embedded

/-!
# Payloads of transactions

What is written for a transaction is read as it, but for a signature of zero
bytes.  What is read can be written again and is then read as the same; the
bytes are the same when the payload is in the form that writing gives.
-/

namespace LedgerTx

open Layout (FieldSet FieldSpec Value Schema Width Kind Same Fits FieldsHold Nested fieldNames
  rawFields boundedFields)
open Layout.FieldSet

/-! ## Keys and the form that writing gives -/

namespace Transaction

def keys (tx : Transaction) : List PublicKey :=
  (tx.signature.map SignatureInfo.signer).toList ++ tx.body.keys

def Accepted (tx : Transaction) : Prop :=
  ∀ key ∈ tx.keys, key.Accepted

/-- The transaction without a signature that is written as zero bytes only. -/
def withoutZeroSignature (tx : Transaction) : Transaction :=
  { tx with signature := tx.signature.filter (!·.isZero) }

end Transaction

def TransactionKind.KeptInside (fields : FieldSet) (kind : TransactionKind) : Prop :=
  kind.isAggregate = true → ∀ joined, fields.get? "transactions" = some (.vector joined) →
    ∀ piece ∈ Embedded.pieces joined, Embedded.Kept piece

/--
Whether a payload is in the form that writing gives: the reserved word is
zero, the body has this form on the network of the header, and each embedded
payload has it on its own network.
-/
def Transaction.Kept (bytes : Bytes) : Prop :=
  ∀ kind decoded, Payload.kind bytes = .ok kind →
    Layout.parse (Schema.join [transactionHeader, kind.schema]) bytes = .ok decoded →
    Payload.Kept kind decoded.fields ∧ kind.KeptInside decoded.fields

/-! ## Bodies -/

theorem nested_aggregateValues (joined : Bytes) :
    Nested (Payload.aggregateValues joined) aggregateSchema.fields := by
  simp [aggregateSchema, FieldSpec.u32, FieldSpec.vector, nested_cons, nested_nil, Kind.Exact]

theorem fits_aggregateValues {joined : Bytes} (h : joined.length < 2 ^ 32) :
    Fits (Payload.aggregateValues joined) aggregateSchema.fields := by
  have hholds : FieldsHold [Payload.aggregateValues joined] (Payload.aggregateValues joined)
      aggregateSchema.fields _ :=
    .cons rfl (.number h) <| .cons rfl (.vector rfl (by omega) rfl) .nil
  exact hholds.fits (nested_aggregateValues joined)

theorem same_aggregateValues {fields : FieldSet} (h : Fits fields aggregateSchema.fields) :
    ∃ joined, Same fields (Payload.aggregateValues joined) aggregateSchema.fields
      ∧ (rawFields fields aggregateSchema.fields).length = 4 + joined.length := by
  obtain ⟨joined, hjoined, hsize⟩ :=
    h.vector "transactions" "transactions_size" 0 (by simp [aggregateSchema, FieldSpec.vector])
  refine ⟨joined, ?_, ?_⟩
  · simp [aggregateSchema, FieldSpec.u32, FieldSpec.vector, Payload.aggregateValues, get?_cons,
      hjoined, hsize]
  · simp [aggregateSchema, FieldSpec.u32, FieldSpec.vector, rawFields, hjoined, hsize, Kind.raw,
      Value.number, Width.bytes]

theorem Body.reader_aggregate (bonded : Bool) (inner : List Embedded)
    (cosignatures : List Cosignature) :
    (aggregate bonded inner cosignatures).kind.reader = .aggregate bonded := by
  cases bonded <;> rfl

theorem Body.schema_aggregate (bonded : Bool) (inner : List Embedded)
    (cosignatures : List Cosignature) :
    (aggregate bonded inner cosignatures).kind.schema = aggregateSchema := by
  cases bonded <;> rfl

/-- Only an aggregate has bytes after the values of its body, and its values have an end. -/
theorem Body.bounded_or_nil (body : Body) :
    boundedFields (Schema.join [transactionHeader, body.kind.schema]) = true
      ∨ body.cosignatures.flatMap Payload.cosignatureBytes = [] := by
  cases body with
  | operation operation => exact .inr rfl
  | aggregate bonded inner cosignatures =>
      rw [Body.schema_aggregate]
      exact .inl rfl

namespace Transaction

theorem nested_bodyValues {network : Network} {body : Body} {values : FieldSet}
    (h : bodyValues network body = .ok values) : Nested values body.kind.schema.fields := by
  cases body with
  | operation operation =>
      cases h
      exact operation.nested_fields network
  | aggregate bonded inner cosignatures =>
      obtain ⟨list, -, h⟩ := bind_eq_ok.mp h
      cases h
      rw [Body.schema_aggregate]
      exact nested_aggregateValues _

theorem readBody_eq_ok {kind : TransactionKind} {fields : FieldSet} {trailing : Bytes}
    {body : Body} : readBody kind fields trailing = .ok body
    ↔ (∃ read operation, kind.reader = .operation read ∧ read fields = .ok operation
        ∧ trailing = [] ∧ body = .operation operation)
      ∨ ∃ bonded joined inner cosignatures, kind.reader = .aggregate bonded
        ∧ fields.get? "transactions" = some (.vector joined)
        ∧ Embedded.readAll joined = .ok inner
        ∧ Payload.cosignatures trailing = .ok cosignatures
        ∧ body = .aggregate bonded inner cosignatures := by
  unfold readBody
  cases hreader : kind.reader with
  | operation read =>
      simp only [bind_eq_ok]
      constructor
      · rintro ⟨operation, hread, h⟩
        split at h
        · rename_i hempty
          cases h
          exact .inl ⟨read, operation, rfl, hread, List.isEmpty_iff.mp hempty, rfl⟩
        · cases h
      · rintro (⟨_, operation, ⟨⟩, hread, rfl, rfl⟩ | ⟨_, _, _, _, ⟨⟩, _⟩)
        exact ⟨operation, hread, rfl⟩
  | aggregate bonded =>
      simp only [bind_eq_ok, lift_eq_ok, vector_eq_ok]
      constructor
      · rintro ⟨joined, hjoined, inner, hinner, cosignatures, hcosignatures, h⟩
        cases h
        exact .inr ⟨bonded, joined, inner, cosignatures, rfl, hjoined, hinner, hcosignatures, rfl⟩
      · rintro (⟨_, _, ⟨⟩, _⟩ | ⟨_, joined, inner, cosignatures, ⟨⟩, hjoined, hinner,
          hcosignatures, rfl⟩)
        exact ⟨joined, hjoined, inner, hinner, cosignatures, hcosignatures, rfl⟩

theorem kind_of_readBody {kind : TransactionKind} {fields : FieldSet} {trailing : Bytes}
    {body : Body} (hfits : Fits fields kind.schema.fields)
    (h : readBody kind fields trailing = .ok body) : body.kind = kind := by
  rcases readBody_eq_ok.mp h with ⟨read, operation, hreader, hread, -, rfl⟩
    | ⟨bonded, joined, inner, cosignatures, hreader, -, -, -, rfl⟩
  · exact (Operation.readFrom_of_read hreader hfits hread).kind_eq
  · cases kind <;> cases hreader <;> rfl

theorem readBody_of_write {network : Network} {body : Body} {fields values : FieldSet}
    (haccepted : ∀ key ∈ body.keys, key.Accepted) (h : bodyValues network body = .ok values)
    (hfits : Fits fields body.kind.schema.fields)
    (hsame : Same fields values body.kind.schema.fields) :
    readBody body.kind fields (body.cosignatures.flatMap Payload.cosignatureBytes) = .ok body := by
  rw [readBody_eq_ok]
  cases body with
  | operation operation =>
      cases h
      obtain ⟨read, hreader⟩ := operation.exists_reader
      have hread := Operation.read_of_same hreader hfits haccepted hsame
      exact .inl ⟨read, operation, hreader, hread, rfl, rfl⟩
  | aggregate bonded inner cosignatures =>
      obtain ⟨list, hlist, h⟩ := bind_eq_ok.mp h
      cases h
      rw [Body.keys, List.forall_mem_append, List.forall_mem_map] at haccepted
      have hinner : ∀ embedded ∈ inner, embedded.Accepted := fun embedded hmem key hkey =>
        haccepted.1 key (Embedded.mem_keysOf.mpr ⟨embedded, hmem, hkey⟩)
      rw [Body.schema_aggregate] at hsame
      exact .inr ⟨bonded, _, inner, cosignatures, Body.reader_aggregate _ _ _,
        hsame "transactions" (by decide), Embedded.readAll_of_write hinner hlist,
        Payload.cosignatures_eq_ok.mpr ⟨haccepted.2, rfl⟩, rfl⟩

theorem write_of_readBody {kind : TransactionKind} {fields : FieldSet} {trailing : Bytes}
    {body : Body} (network : Network) (hfits : Fits fields kind.schema.fields)
    (hlength : (rawFields fields kind.schema.fields).length ≤ 2 ^ 28)
    (h : readBody kind fields trailing = .ok body) :
    (body.kind = kind ∧ trailing = body.cosignatures.flatMap Payload.cosignatureBytes
      ∧ ∀ key ∈ body.keys, key.Accepted)
      ∧ ∃ values, bodyValues network body = .ok values ∧ Fits values kind.schema.fields
        ∧ (rawFields values kind.schema.fields).length
          ≤ (rawFields fields kind.schema.fields).length
        ∧ (kind.Kept network fields → kind.KeptInside fields →
          Same fields values kind.schema.fields) := by
  have hkind := kind_of_readBody hfits h
  rcases readBody_eq_ok.mp h with ⟨read, operation, hreader, hread, rfl, rfl⟩
    | ⟨bonded, joined, inner, cosignatures, hreader, hjoined, hinner, hcosignatures, rfl⟩
  · have hfrom := Operation.readFrom_of_read hreader hfits hread
    exact ⟨⟨hkind, rfl, hfrom.accepted⟩, _, rfl, hfrom.fits network,
      hfrom.length_le network, fun hkept _ => hfrom.same network hkept⟩
  · have hschema : kind.schema = aggregateSchema := by
      rw [← hkind, Body.schema_aggregate]
    rw [hschema] at hfits hlength ⊢
    obtain ⟨found, hsame, hraw⟩ := same_aggregateValues hfits
    cases hjoined.symm.trans (hsame "transactions" (by decide))
    obtain ⟨haccepted, list, hwrite, hshorter, hkept⟩ :=
      Embedded.write_of_readAll (by omega) hinner
    obtain ⟨hcosigners, hbytes⟩ := Payload.cosignatures_eq_ok.mp hcosignatures
    have hfitsList : Fits (Payload.aggregateValues list.flatten) aggregateSchema.fields :=
      fits_aggregateValues (by omega)
    refine ⟨⟨hkind, hbytes, ?_⟩, _, bind_eq_ok.mpr ⟨list, hwrite, rfl⟩, hfitsList, ?_, ?_⟩
    · rw [Body.keys, List.forall_mem_append, List.forall_mem_map]
      refine ⟨fun key hkey => ?_, hcosigners⟩
      obtain ⟨embedded, hmem, hkey⟩ := Embedded.mem_keysOf.mp hkey
      exact haccepted embedded hmem key hkey
    · obtain ⟨written, hsame', hraw'⟩ := same_aggregateValues hfitsList
      cases hsame' "transactions" (by decide)
      omega
    · intro _ hinside
      have haggregate : kind.isAggregate = true := by
        rw [← hkind]
        cases bonded <;> rfl
      rw [hkept (hinside haggregate _ hjoined)]
      exact hsame

/-! ## Header values -/

def headValues (tx : Transaction) : FieldSet :=
  Payload.commonValues tx.versionWord tx.kind ++ Payload.signatureValues tx.signature
    ++ [("max_fee", .scalar tx.maxFee), ("deadline", .scalar tx.deadline.millis)]

theorem headValues_eq (tx : Transaction) : ∃ (signature : Block 64) (signer : Block 32),
    tx.headValues = [("size", .scalar 0), ("reserved", .scalar 0),
      ("version", .number tx.versionWord), ("type", .coded tx.kind),
      ("signature", .block signature), ("signer", .block signer), ("max_fee", .scalar tx.maxFee),
      ("deadline", .scalar tx.deadline.millis)] := by
  unfold headValues
  cases tx.signature with
  | none => exact ⟨.zero, .zero, rfl⟩
  | some info => exact ⟨info.signature.block, info.signer.block, rfl⟩

theorem get?_maxFee (tx : Transaction) :
    tx.headValues.get? "max_fee" = some (.scalar tx.maxFee) := by
  obtain ⟨signature, signer, hvalues⟩ := tx.headValues_eq
  rw [hvalues]
  rfl

theorem get?_deadline (tx : Transaction) :
    tx.headValues.get? "deadline" = some (.scalar tx.deadline.millis) := by
  obtain ⟨signature, signer, hvalues⟩ := tx.headValues_eq
  rw [hvalues]
  rfl

theorem same_signatureValues (tx : Transaction) :
    Same tx.headValues (Payload.signatureValues tx.signature) signatureFields := by
  unfold headValues
  cases tx.signature with
  | none =>
      simp only [signatureFields, FieldSpec.array, Layout.same_cons]
      exact ⟨rfl, rfl, .nil _ _⟩
  | some info =>
      simp only [signatureFields, FieldSpec.array, Layout.same_cons]
      exact ⟨rfl, rfl, .nil _ _⟩

theorem isHead_headValues (tx : Transaction) :
    IsHead transactionHeader tx.kind tx.headValues where
  fits := by
    obtain ⟨signature, signer, hvalues⟩ := tx.headValues_eq
    rw [hvalues]
    exact FieldsHold.fits (.of_inline isHeader_transaction.inline) <|
      .cons rfl (.scalar (by decide)) <| .cons rfl (.block signature) <|
      .cons rfl (.block signer) <| .cons rfl (.scalar (by decide)) <|
      .cons rfl (.number (versionWord_lt tx.network tx.version)) <|
      .cons rfl (.coded (by decide) tx.kind) <| .cons rfl (.word tx.maxFee) <|
      .cons rfl (.word tx.deadline.millis) .nil
  names := by
    obtain ⟨signature, signer, hvalues⟩ := tx.headValues_eq
    rw [hvalues]
    simp only [List.map_cons, List.map_nil]
    decide
  kind_eq := rfl

/-! ## Reading and writing -/

theorem read_eq_ok {tx : Transaction} {bytes : Bytes} : read bytes = .ok tx
    ↔ ∃ kind decoded, Payload.kind bytes = .ok kind ∧ Payload.checkSize bytes = .ok ()
      ∧ Layout.parse (Schema.join [transactionHeader, kind.schema]) bytes = .ok decoded
      ∧ Payload.networkVersion decoded.fields = .ok (tx.network, tx.version)
      ∧ readBody kind decoded.fields (bytes.drop decoded.extent) = .ok tx.body
      ∧ decoded.fields.get? "max_fee" = some (.scalar tx.maxFee)
      ∧ decoded.fields.get? "deadline" = some (.scalar tx.deadline.millis)
      ∧ Payload.signatureInfo decoded.fields = .ok tx.signature := by
  constructor
  · intro h
    obtain ⟨kind, hkind, h⟩ := bind_eq_ok.mp h
    obtain ⟨⟨⟩, hsize, h⟩ := bind_eq_ok.mp h
    obtain ⟨decoded, hparse, h⟩ := bind_eq_ok.mp h
    obtain ⟨⟨network, version⟩, hversion, h⟩ := bind_eq_ok.mp h
    obtain ⟨body, hbody, h⟩ := bind_eq_ok.mp h
    obtain ⟨maxFee, hmaxFee, h⟩ := bind_eq_ok.mp h
    obtain ⟨deadline, hdeadline, h⟩ := bind_eq_ok.mp h
    obtain ⟨info, hinfo, h⟩ := bind_eq_ok.mp h
    cases h
    exact ⟨kind, decoded, hkind, hsize, lift_eq_ok.mp hparse, hversion, hbody,
      scalar_eq_ok.mp (lift_eq_ok.mp hmaxFee), scalar_eq_ok.mp (lift_eq_ok.mp hdeadline), hinfo⟩
  · rintro ⟨kind, decoded, hkind, hsize, hparse, hversion, hbody, hmaxFee, hdeadline, hinfo⟩
    exact bind_eq_ok.mpr ⟨kind, hkind, bind_eq_ok.mpr ⟨(), hsize, bind_eq_ok.mpr ⟨decoded,
      lift_eq_ok.mpr hparse, bind_eq_ok.mpr ⟨_, hversion, bind_eq_ok.mpr ⟨_, hbody,
      bind_eq_ok.mpr ⟨_, lift_eq_ok.mpr (scalar_eq_ok.mpr hmaxFee), bind_eq_ok.mpr ⟨_,
      lift_eq_ok.mpr (scalar_eq_ok.mpr hdeadline), bind_eq_ok.mpr ⟨_, hinfo, rfl⟩⟩⟩⟩⟩⟩⟩⟩

def trailing (tx : Transaction) : Bytes :=
  tx.body.cosignatures.flatMap Payload.cosignatureBytes

theorem parts_of_aggregate {tx : Transaction} {bonded : Bool} {inner : List Embedded}
    {cosignatures : List Cosignature} (h : tx.body = .aggregate bonded inner cosignatures) :
    tx.kind.schema = aggregateSchema
      ∧ tx.trailing = cosignatures.flatMap Payload.cosignatureBytes := by
  rw [kind, trailing, h, Body.schema_aggregate]
  exact ⟨rfl, rfl⟩

theorem steps_of_write {tx : Transaction} {bytes : Bytes} (h : tx.write = .ok bytes) :
    ∃ values, bodyValues tx.network tx.body = .ok values ∧ Fits values tx.kind.schema.fields
      ∧ Payload.flat [transactionHeader, tx.kind.schema] (tx.headValues ++ values)
        = .ok (rawFields (tx.headValues ++ values) (Schema.join [transactionHeader, tx.kind.schema]))
      ∧ Payload.withSize (rawFields (tx.headValues ++ values)
        (Schema.join [transactionHeader, tx.kind.schema]) ++ tx.trailing) = .ok bytes := by
  obtain ⟨values, hvalues, h⟩ := bind_eq_ok.mp h
  obtain ⟨flat, hflat, hwrite⟩ := bind_eq_ok.mp h
  have hhead := tx.isHead_headValues
  obtain ⟨hfits, rfl⟩ := (Framed.of_flat isHeader_transaction
    (hhead.nested_append isHeader_transaction (nested_bodyValues hvalues))
    (hhead.kind_append _) hflat hwrite).1
  rw [Schema.join_pair, Layout.fits_append] at hfits
  have hsame := hhead.same_body isHeader_transaction values
  have hbody := hfits.2.congr (fun name hname => (hsame name hname).symm) fun name hname =>
    (hsame name (tx.kind.closed_schema name hname)).symm
  exact ⟨values, hvalues, hbody, hflat, hwrite⟩

theorem framed_of_write {tx : Transaction} {bytes : Bytes} (h : tx.write = .ok bytes) :
    ∃ values, bodyValues tx.network tx.body = .ok values
      ∧ Framed transactionHeader tx.kind
        (("size", .number bytes.length) :: (tx.headValues ++ values)) tx.trailing bytes := by
  obtain ⟨values, hvalues, hfits, -, hwrite⟩ := steps_of_write h
  have hhead := tx.isHead_headValues
  exact ⟨values, hvalues, Framed.of_raw isHeader_transaction
    (hhead.fits_append isHeader_transaction hfits) (hhead.kind_append _) hwrite⟩

theorem read_of_write {tx : Transaction} {bytes : Bytes} (haccepted : tx.Accepted)
    (h : tx.write = .ok bytes) : read bytes = .ok tx.withoutZeroSignature := by
  obtain ⟨values, hvalues, hframed⟩ := framed_of_write h
  obtain ⟨hsigner, hkeys⟩ := List.forall_mem_append.mp haccepted
  obtain ⟨decoded, hparse, -, hpost, hcarries⟩ := Carries.parse isHeader_transaction
    tx.isHead_headValues hframed tx.body.bounded_or_nil
  have hbody := readBody_of_write hkeys hvalues hcarries.fits_body hcarries.body
  have hversion := hcarries.head "version" (by decide) (by decide)
  have hmaxFee := hcarries.head "max_fee" (by decide) (by decide)
  have hdeadline := hcarries.head "deadline" (by decide) (by decide)
  have hsignature : Same decoded.fields (Payload.signatureValues tx.signature) signatureFields :=
    fun name hname => (hcarries.head name (signatureFields_subset hname).1
      (signatureFields_subset hname).2).trans (tx.same_signatureValues name hname)
  refine read_eq_ok.mpr ⟨tx.kind, decoded, hframed.kindAt_eq isHeader_transaction,
    hframed.checkSize_eq isHeader_transaction, hparse, Payload.networkVersion_eq_ok.mpr hversion,
    ?_, hmaxFee.trans tx.get?_maxFee, hdeadline.trans tx.get?_deadline, ?_⟩
  · rw [hpost]
    exact hbody
  · rw [Payload.signatureInfo_eq_ok, withoutZeroSignature, Payload.signatureValues_filter]
    refine ⟨fun info hinfo => ?_, hsignature⟩
    obtain ⟨hmem, hnonzero⟩ := Option.mem_filter_iff.mp hinfo
    refine ⟨by simpa using hnonzero, hsigner _ ?_⟩
    rw [Option.mem_def.mp hmem]
    exact List.mem_singleton_self _

/-- What is read can be written again, and gives the same bytes when it has the written form. -/
theorem write_of_read {tx : Transaction} {bytes : Bytes} (hlength : bytes.length ≤ 2 ^ 28)
    (h : read bytes = .ok tx) :
    (tx.Accepted ∧ tx.withoutZeroSignature = tx) ∧ ∃ written, tx.write = .ok written
      ∧ (Kept bytes → written = bytes) := by
  obtain ⟨kind, decoded, hkind, hsize, hparse, hversion, hbody, hmaxFee, hdeadline, hinfo⟩ :=
    read_eq_ok.mp h
  obtain ⟨hframed, hextent⟩ := Framed.of_parse isHeader_transaction hkind hsize hparse
  have hfits := hframed.fits_pair
  have hraw := isHeader_transaction.length_raw hframed.fits
  have htotal := congrArg List.length hframed.bytes_eq
  rw [List.length_append] at htotal
  obtain ⟨⟨hkindBody, hpost, hkeys⟩, values, hvalues, hbodyFits, hshorter, hsame⟩ :=
    write_of_readBody tx.network hfits.2 (by omega) hbody
  subst hkindBody
  have hhead : IsHead transactionHeader tx.body.kind tx.headValues := tx.isHead_headValues
  rw [hpost] at hframed htotal
  obtain ⟨flat, written, hflat, hwrite, hwritten, hframed'⟩ :=
    hhead.write isHeader_transaction hbodyFits tx.trailing (by rw [trailing]; omega)
  obtain ⟨hgood, hsignature⟩ := Payload.signatureInfo_eq_ok.mp hinfo
  refine ⟨⟨?_, ?_⟩, written, ?_, fun hkept => ?_⟩
  · rw [Accepted, keys, List.forall_mem_append]
    refine ⟨fun key hkey => ?_, hkeys⟩
    obtain ⟨info, hfound, rfl⟩ := Option.map_eq_some_iff.mp (Option.mem_toList.mp hkey)
    exact (hgood info hfound).2
  · have hfilter : tx.signature.filter (!·.isZero) = tx.signature := by
      cases hfound : tx.signature with
      | none => rfl
      | some info =>
          rw [Option.filter_some, (hgood info hfound).1]
          rfl
    rw [withoutZeroSignature, hfilter]
  · exact bind_eq_ok.mpr ⟨values, hvalues, bind_eq_ok.mpr ⟨flat, hflat, hwrite⟩⟩
  · obtain ⟨⟨hreserved, hkeptBody⟩, hpieces⟩ := hkept _ _ hkind hparse
    refine Carries.eq_written isHeader_transaction hhead hframed ⟨hframed.fits, ?_,
      hsame (hkeptBody _ _ hversion) hpieces⟩ hframed'
    have hword := Payload.networkVersion_eq_ok.mp hversion
    have hheadSignature := tx.same_signatureValues
    intro name hname hne
    simp only [fieldNames, transactionHeader, List.map_cons, List.map_nil, FieldSpec.u32,
      FieldSpec.u16, FieldSpec.u64, FieldSpec.array, List.mem_cons, List.not_mem_nil,
      or_false] at hname
    rcases hname with rfl | rfl | rfl | rfl | rfl | rfl | rfl | rfl
    · exact absurd rfl hne
    · exact (hsignature "signature" (by decide)).trans (hheadSignature _ (by decide)).symm
    · exact (hsignature "signer" (by decide)).trans (hheadSignature _ (by decide)).symm
    · exact hreserved
    · exact hword
    · exact hframed.kind_eq
    · exact hmaxFee.trans tx.get?_maxFee.symm
    · exact hdeadline.trans tx.get?_deadline.symm

theorem kept_bodyValues {network : Network} {body : Body} {values : FieldSet}
    (h : bodyValues network body = .ok values) : body.kind.Kept network values := by
  cases body with
  | operation operation =>
      cases h
      exact operation.kept_fields network
  | aggregate bonded inner cosignatures => cases bonded <;> trivial

theorem keptInside_of_write {network : Network} {body : Body} {fields values : FieldSet}
    (h : bodyValues network body = .ok values)
    (hsame : Same fields values body.kind.schema.fields) : body.kind.KeptInside fields := by
  intro haggregate joined hjoined
  cases body with
  | operation operation =>
      rw [Body.kind, operation.isAggregate_kind] at haggregate
      cases haggregate
  | aggregate bonded inner cosignatures =>
      obtain ⟨list, hlist, h⟩ := bind_eq_ok.mp h
      cases h
      rw [Body.schema_aggregate] at hsame
      cases hjoined.symm.trans (hsame "transactions" (by decide))
      obtain ⟨hpieces, hkept⟩ := Embedded.pieces_of_write hlist
      rw [hpieces]
      exact hkept

theorem kept_of_write {tx : Transaction} {bytes : Bytes} (h : tx.write = .ok bytes) :
    Kept bytes := by
  obtain ⟨values, hvalues, hframed⟩ := framed_of_write h
  obtain ⟨decoded, hparse, -, -, hcarries⟩ := Carries.parse isHeader_transaction
    tx.isHead_headValues hframed tx.body.bounded_or_nil
  intro kind other hkind hother
  cases (hframed.kindAt_eq isHeader_transaction).symm.trans hkind
  cases hparse.symm.trans hother
  exact ⟨hcarries.kept rfl rfl ⟨by decide, by decide⟩ (kept_bodyValues hvalues),
    keptInside_of_write hvalues hcarries.body⟩

end Transaction

/-! ## Round trips -/

/--
What is written for a transaction or an embedded transaction is read as it,
but for a signature whose 96 bytes are zero, which is read as none.
-/
theorem Payload.written_reads_back :
    (∀ (tx : Transaction) (bytes : Bytes), (∀ key ∈ tx.keys, key.Accepted) →
      tx.write = .ok bytes → Transaction.read bytes
        = .ok { tx with signature := tx.signature.filter fun info => !info.isZero })
    ∧ ∀ (embedded : Embedded) (bytes : Bytes), (∀ key ∈ embedded.keys, key.Accepted) →
      embedded.write = .ok bytes → Embedded.read bytes = .ok embedded :=
  ⟨fun _ _ haccepted h => Transaction.read_of_write haccepted h,
    fun _ _ haccepted h => Embedded.read_of_write haccepted h⟩

def PublicKey.base : PublicKey := ⟨⟨0x58 :: List.replicate 31 0x66, by decide⟩⟩

theorem PublicKey.accepted_base : base.Accepted := by decide +kernel

def Embedded.levyRemoval : Embedded :=
  ⟨.testNet, 1, .operation (.levyRemoval ⟨⟨5⟩⟩)⟩

def Transaction.cosignedAggregate : Transaction :=
  ⟨.testNet, 3, 100, ⟨1000⟩, some ⟨⟨.zero⟩, .base⟩,
    .aggregate true [Embedded.levyRemoval] [⟨.base, ⟨.zero⟩⟩]⟩

theorem Transaction.accepted_cosignedAggregate : cosignedAggregate.Accepted := by
  intro key hkey
  have hall : ∀ key ∈ cosignedAggregate.keys, key = .base := by decide
  exact hall key hkey ▸ PublicKey.accepted_base

theorem Transaction.write_cosignedAggregate :
    ∃ bytes, cosignedAggregate.write = .ok bytes ∧ bytes.length ≤ 2 ^ 28 := by
  have hshort : cosignedAggregate.write.toOption.any (·.length ≤ 2 ^ 28) = true := by
    decide +kernel
  obtain ⟨bytes, hwrite, hlength⟩ := Option.any_eq_true _ _ |>.mp hshort
  exact ⟨bytes, eq_ok_of_toOption hwrite, of_decide_eq_true hlength⟩

theorem Embedded.write_levyRemoval : ∃ bytes, levyRemoval.write = .ok bytes := by
  have hok : levyRemoval.write.toOption.isSome = true := by decide +kernel
  obtain ⟨bytes, hwrite⟩ := Option.isSome_iff_exists.mp hok
  exact ⟨bytes, eq_ok_of_toOption hwrite⟩

theorem Payload.written_reads_back_cosignedAggregate :
    (∃ bytes, Transaction.cosignedAggregate.write = .ok bytes
      ∧ Transaction.read bytes = .ok Transaction.cosignedAggregate)
    ∧ ∃ bytes, Embedded.levyRemoval.write = .ok bytes
      ∧ Embedded.read bytes = .ok Embedded.levyRemoval := by
  obtain ⟨bytes, hwrite, -⟩ := Transaction.write_cosignedAggregate
  obtain ⟨piece, hpiece⟩ := Embedded.write_levyRemoval
  have haccepted : ∀ key ∈ Embedded.levyRemoval.keys, key.Accepted := fun _ hkey => nomatch hkey
  exact ⟨⟨bytes, hwrite, written_reads_back.1 _ bytes Transaction.accepted_cosignedAggregate hwrite⟩,
    piece, hpiece, written_reads_back.2 _ piece haccepted hpiece⟩

/--
A payload of at most 2 ^ 28 bytes that is read as a transaction can be
written again and is read as the same.  The transaction is written as this
very payload exactly when the payload has the form that writing gives: zero
reserved words, mosaic definitions with at most one property and no further
flags, and recipients with the network byte of their transaction.
-/
theorem Payload.read_writes_back {tx : Transaction} {bytes : Bytes}
    (hlength : bytes.length ≤ 2 ^ 28) (h : Transaction.read bytes = .ok tx) :
    (∃ written, tx.write = .ok written ∧ Transaction.read written = .ok tx)
      ∧ (tx.write = .ok bytes ↔ Transaction.Kept bytes) := by
  obtain ⟨⟨haccepted, hzero⟩, written, hwrite, hsame⟩ := Transaction.write_of_read hlength h
  refine ⟨⟨written, hwrite, ?_⟩, Transaction.kept_of_write, fun hkept => ?_⟩
  · rw [Transaction.read_of_write haccepted hwrite, hzero]
  · rw [hwrite, hsame hkept]

theorem Payload.read_writes_back_cosignedAggregate :
    ∃ bytes : Bytes, bytes.length ≤ 2 ^ 28
      ∧ Transaction.read bytes = .ok Transaction.cosignedAggregate
      ∧ Transaction.Kept bytes := by
  obtain ⟨bytes, hwrite, hlength⟩ := Transaction.write_cosignedAggregate
  have hread : Transaction.read bytes = .ok Transaction.cosignedAggregate :=
    Transaction.read_of_write Transaction.accepted_cosignedAggregate hwrite
  exact ⟨bytes, hlength, hread, (read_writes_back hlength hread).2.mp hwrite⟩

end LedgerTx
