import LedgerTx.Proofs.Transaction.Assemble

/-!
# Hashes bind transactions

Both hashes leave out the size in front of a payload and end where the body
ends, which is found by parsing.  What they are taken of is the flat form of
some of the fields, and well-formed fields are told apart by their flat form,
without the length or the bytes that follow.  The kind stands at a fixed
place in it, so the fields of both payloads are those of the same kind.
-/

namespace LedgerTx

open Layout (FieldSet FieldSpec Value Schema WellFormed Same Fits fieldNames rawFields
  positionLimit)
open Layout.FieldSet

/-! ## Parts of the fields -/

theorem TransactionKind.wellFormed_schema :
    ∀ kind : TransactionKind, WellFormed kind.schema.fields :=
  Coded.forall_of_all (by decide)

theorem wellFormed_signatureFields : WellFormed signatureFields := by decide

namespace Transaction

theorem wellFormed_signedFields : ∀ kind : TransactionKind, WellFormed (signedFields kind) :=
  Coded.forall_of_all (by decide)

theorem join_eq_signedFields (kind : TransactionKind) : Schema.join [transactionHeader, kind.schema]
    = [.u32 "size"] ++ (signatureFields ++ signedFields kind) := by
  rw [Schema.join_pair]
  rfl

end Transaction

theorem ScalarAt.code_eq {fields : List FieldSpec} {position : Nat} {values : FieldSet}
    {kind : TransactionKind} (hat : ScalarAt fields position "type" .u16)
    (hfits : Fits values fields) (hkind : values.get? "type" = some (.coded kind)) (post : Bytes) :
    ((rawFields values fields ++ post).drop position).take 2
      = LittleEndian.encode 2 (Coded.code kind) := by
  obtain ⟨n, hvalue, -, hbytes⟩ := hat.bytes_eq hfits post
  have hcode := Layout.toNat_toUInt64
    (Nat.lt_of_lt_of_le (Coded.Narrow.code_lt kind) (by decide))
  cases hkind.symm.trans hvalue
  rw [hcode] at hbytes
  exact hbytes

theorem TransactionKind.eq_of_encode {kind other : TransactionKind}
    (h : LittleEndian.encode 2 (Coded.code kind) = LittleEndian.encode 2 (Coded.code other)) :
    kind = other := by
  have hlt (kind : TransactionKind) : Coded.code kind < 256 ^ 2 := Coded.Narrow.code_lt kind
  have hcode := congrArg LittleEndian.decode h
  rw [LittleEndian.decode_encode, LittleEndian.decode_encode, Nat.mod_eq_of_lt (hlt kind),
    Nat.mod_eq_of_lt (hlt other)] at hcode
  exact Coded.code_inj hcode

namespace Framed

variable {kind other : TransactionKind} {values others : FieldSet} {post bytes : Bytes}

theorem fits_parts (h : Framed transactionHeader kind values post bytes) :
    Fits values [.u32 "size"] ∧ Fits values signatureFields
      ∧ Fits values (Transaction.signedFields kind) := by
  have hfits := h.fits
  rwa [Transaction.join_eq_signedFields, Layout.fits_append, Layout.fits_append] at hfits

theorem fits_body (h : Framed transactionHeader kind values post bytes) :
    Fits values kind.schema.fields :=
  (Layout.fits_append.mp h.fits_parts.2.2).2

theorem length_signature (h : Framed transactionHeader kind values post bytes) :
    (rawFields values signatureFields).length = 96 :=
  Layout.length_rawFields_of_fixed _ rfl h.fits_parts.2.1.shaped

theorem raw_eq_parts (h : Framed transactionHeader kind values post bytes) :
    ∃ size head : Bytes, (size.length = 4 ∧ head.length = 24)
      ∧ rawFields values (Transaction.signedFields kind)
        = head ++ rawFields values kind.schema.fields
      ∧ rawFields values (Schema.join [transactionHeader, kind.schema])
        = size ++ (rawFields values signatureFields
          ++ rawFields values (Transaction.signedFields kind)) := by
  obtain ⟨hsize, -, hsigned⟩ := h.fits_parts
  have hhead := (Layout.fits_append.mp hsigned).1
  refine ⟨_, _, ⟨Layout.length_rawFields_of_fixed _ rfl hsize.shaped,
    Layout.length_rawFields_of_fixed _ rfl hhead.shaped⟩, Layout.rawFields_append _, ?_⟩
  rw [Transaction.join_eq_signedFields, Layout.rawFields_append, Layout.rawFields_append]

theorem slices (h : Framed transactionHeader kind values post bytes) {stop : Nat}
    (hstop : stop = (rawFields values (Schema.join [transactionHeader, kind.schema])).length) :
    (bytes.take stop).drop Payload.signedPosition
        = rawFields values (Transaction.signedFields kind)
      ∧ (bytes.take Payload.signedPosition).drop Payload.signaturePosition
        = rawFields values signatureFields
      ∧ (bytes.take stop).drop Payload.headerSize = rawFields values kind.schema.fields := by
  obtain ⟨size, head, ⟨hsize, hhead⟩, hsigned, hraw⟩ := h.raw_eq_parts
  have htake : bytes.take stop
      = rawFields values (Schema.join [transactionHeader, kind.schema]) := by
    rw [h.bytes_eq]
    exact List.take_left' hstop.symm
  have hfront : (size ++ rawFields values signatureFields).length = Payload.signedPosition := by
    rw [List.length_append, hsize, h.length_signature]
    rfl
  rw [htake]
  refine ⟨?_, ?_, ?_⟩
  · rw [hraw, ← List.append_assoc]
    exact List.drop_left' hfront
  · rw [h.bytes_eq, hraw, ← List.append_assoc, List.append_assoc, List.take_left' hfront]
    exact List.drop_left' hsize
  · rw [hraw, hsigned, ← List.append_assoc, ← List.append_assoc]
    apply List.drop_left'
    rw [List.length_append, hfront, hhead]
    rfl

theorem kind_of_signedFields {post' bytes' : Bytes}
    (h : Framed transactionHeader kind values post bytes)
    (h' : Framed transactionHeader other others post' bytes')
    (hraw : rawFields values (Transaction.signedFields kind)
      = rawFields others (Transaction.signedFields other)) : kind = other := by
  have hat (kind : TransactionKind) : ScalarAt (Transaction.signedFields kind) 6 "type" .u16 :=
    ⟨[.u32 "reserved", .u16 "version"], _, rfl, rfl, rfl⟩
  have hcode := (hat kind).code_eq h.fits_parts.2.2 h.kind_eq []
  rw [hraw, (hat other).code_eq h'.fits_parts.2.2 h'.kind_eq []] at hcode
  exact (TransactionKind.eq_of_encode hcode).symm

theorem length_parts_lt (h : Framed transactionHeader kind values post bytes) :
    (rawFields values signatureFields).length < positionLimit
      ∧ (rawFields values (Transaction.signedFields kind)).length < positionLimit
      ∧ (rawFields values kind.schema.fields).length < positionLimit := by
  obtain ⟨size, head, -, hsigned, hraw⟩ := h.raw_eq_parts
  have hlimit : 2 ^ 32 ≤ positionLimit := by decide
  have hlength := h.length_lt
  rw [h.bytes_eq, hraw, List.length_append, List.length_append, List.length_append] at hlength
  have hbody := congrArg List.length hsigned
  rw [List.length_append] at hbody
  omega

end Framed

/-! ## What a payload is read from -/

namespace Transaction

/-- The values that a payload holds for a transaction, with the bytes after them. -/
structure HeldBy (tx : Transaction) (values : FieldSet) (post bytes : Bytes) : Prop where
  framed : Framed transactionHeader tx.kind values post bytes
  bodyEnd : Payload.bodyEnd bytes
    = .ok (rawFields values (Schema.join [transactionHeader, tx.kind.schema])).length
  version : values.get? "version" = some (.number tx.versionWord)
  maxFee : values.get? "max_fee" = some (.scalar tx.maxFee)
  deadline : values.get? "deadline" = some (.scalar tx.deadline.millis)
  signature : Payload.signatureInfo values = .ok tx.signature
  body : readBody tx.kind values post = .ok tx.body

theorem heldBy_of_read {tx : Transaction} {bytes : Bytes} (h : read bytes = .ok tx) :
    ∃ values post, tx.HeldBy values post bytes := by
  obtain ⟨kind, decoded, hkind, hsize, hparse, hversion, hbody, hmaxFee, hdeadline, hinfo⟩ :=
    read_eq_ok.mp h
  obtain ⟨hframed, hextent⟩ := Framed.of_parse isHeader_transaction hkind hsize hparse
  obtain rfl : tx.kind = kind := kind_of_readBody hframed.fits_body hbody
  have hstop : Payload.bodyEnd bytes = .ok decoded.extent :=
    bind_eq_ok.mpr ⟨tx.kind, hkind, bind_eq_ok.mpr ⟨decoded, lift_eq_ok.mpr hparse, rfl⟩⟩
  rw [hextent] at hstop
  exact ⟨decoded.fields, _, hframed, hstop, Payload.networkVersion_eq_ok.mp hversion, hmaxFee,
    hdeadline, hinfo, hbody⟩

namespace HeldBy

variable {tx other : Transaction} {values others : FieldSet} {post post' bytes bytes' : Bytes}

theorem signingInput_eq (h : tx.HeldBy values post bytes) (generation : Option GenerationHash) :
    Payload.signingInput bytes generation
      = .ok (Payload.salt generation ++ rawFields values (signedFields tx.kind)) := by
  obtain ⟨hsigned, -, -⟩ := h.framed.slices rfl
  refine bind_eq_ok.mpr ⟨_, h.bodyEnd, ?_⟩
  rw [hsigned]

theorem hashInput_eq (h : tx.HeldBy values post bytes) (generation : Option GenerationHash) :
    Payload.hashInput bytes generation
      = .ok (Payload.salt generation ++ rawFields values signatureFields
        ++ LittleEndian.encode 2 (Coded.code tx.kind)
        ++ rawFields values tx.kind.schema.fields) := by
  obtain ⟨-, hsignature, hbody⟩ := h.framed.slices rfl
  have hcode := (isHeader_transaction.kind_at_join tx.kind).code_eq h.framed.fits
    h.framed.kind_eq post
  rw [← h.framed.bytes_eq] at hcode
  refine bind_eq_ok.mpr ⟨_, h.bodyEnd, ?_⟩
  rw [hsignature, hbody, hcode]

theorem body_eq (h : tx.HeldBy values post bytes) (h' : other.HeldBy others post' bytes')
    (hkind : tx.kind = other.kind) (hsame : Same values others tx.kind.schema.fields) :
    tx.body.withoutCosignatures = other.body.withoutCosignatures := by
  have hbody := readBody_eq_ok.mp h.body
  have hbody' := readBody_eq_ok.mp h'.body
  rw [← hkind] at hbody'
  rcases hbody with ⟨read, operation, hreader, hread, -, heq⟩
    | ⟨bonded, joined, inner, cosignatures, hreader, hjoined, hinner, -, heq⟩
  · rcases hbody' with ⟨read', operation', hreader', hread', -, heq'⟩
      | ⟨_, _, _, _, hreader', -⟩
    · cases hreader.symm.trans hreader'
      rw [TransactionKind.read_congr hreader hsame, hread'] at hread
      cases hread
      rw [heq, heq']
    · cases hreader.symm.trans hreader'
  · rcases hbody' with ⟨_, _, hreader', -⟩
      | ⟨bonded', joined', inner', cosignatures', hreader', hjoined', hinner', -, heq'⟩
    · cases hreader.symm.trans hreader'
    · cases hreader.symm.trans hreader'
      have htransactions : "transactions" ∈ fieldNames tx.kind.schema.fields := by
        rw [TransactionKind.schema_of_reader hreader]
        decide
      rw [hsame "transactions" htransactions, hjoined'] at hjoined
      cases hjoined
      rw [hinner'] at hinner
      cases hinner
      rw [heq, heq']
      rfl

theorem eq_of_signed (h : tx.HeldBy values post bytes) (h' : other.HeldBy others post' bytes')
    (hraw : rawFields values (signedFields tx.kind) = rawFields others (signedFields other.kind)) :
    (tx.network = other.network ∧ tx.version = other.version ∧ tx.kind = other.kind)
      ∧ (tx.maxFee = other.maxFee ∧ tx.deadline = other.deadline)
      ∧ tx.body.withoutCosignatures = other.body.withoutCosignatures := by
  have hkind := h.framed.kind_of_signedFields h'.framed hraw
  have hfits' := h'.framed.fits_parts.2.2
  rw [← hkind] at hraw hfits'
  have hsame := (wellFormed_signedFields tx.kind).same_of_raw h.framed.fits_parts.2.2 hfits'
    h.framed.length_parts_lt.2.1 hraw
  have hhead (name : String)
      (hname : name ∈ ["reserved", "version", "type", "max_fee", "deadline"]) :
      values.get? name = others.get? name :=
    hsame name (List.mem_append_left _ hname)
  have hnetwork : (tx.network, tx.version) = (other.network, other.version) := by
    have hread := Payload.networkVersion_eq_ok.mpr
      ((hhead "version" (by decide)).symm.trans h.version)
    exact Except.ok.inj (hread.symm.trans (Payload.networkVersion_eq_ok.mpr h'.version))
  have hmaxFee : some (Value.scalar tx.maxFee) = some (.scalar other.maxFee) := by
    rw [← h.maxFee, ← h'.maxFee]
    exact hhead "max_fee" (by decide)
  have hdeadline : some (Value.scalar tx.deadline.millis)
      = some (.scalar other.deadline.millis) := by
    rw [← h.deadline, ← h'.deadline]
    exact hhead "deadline" (by decide)
  have hbody : Same values others tx.kind.schema.fields := by
    intro name hname
    apply hsame
    rw [signedFields, fieldNames, List.map_append]
    exact List.mem_append_right _ hname
  obtain ⟨hnetwork, hversion⟩ := Prod.mk.inj hnetwork
  have hmillis := Value.scalar.inj (Option.some.inj hdeadline)
  exact ⟨⟨hnetwork, hversion, hkind⟩, ⟨Value.scalar.inj (Option.some.inj hmaxFee),
    congrArg Deadline.mk hmillis⟩, h.body_eq h' hkind hbody⟩

/-- Signature, kind and body are told by their fields; the header need not be the same. -/
theorem eq_of_hashed (h : tx.HeldBy values post bytes) (h' : other.HeldBy others post' bytes')
    (hsignature : rawFields values signatureFields = rawFields others signatureFields)
    (hkind : tx.kind = other.kind)
    (hbody : rawFields values tx.kind.schema.fields = rawFields others tx.kind.schema.fields) :
    tx.signature = other.signature
      ∧ tx.body.withoutCosignatures = other.body.withoutCosignatures := by
  have hinfo := wellFormed_signatureFields.same_of_raw h.framed.fits_parts.2.1
    h'.framed.fits_parts.2.1 h.framed.length_parts_lt.1 hsignature
  have hsame := tx.kind.wellFormed_schema.same_of_raw h.framed.fits_body
    (hkind ▸ h'.framed.fits_body) h.framed.length_parts_lt.2.2 hbody
  refine ⟨?_, h.body_eq h' hkind hsame⟩
  have hread : Payload.signatureInfo others = .ok tx.signature := by
    obtain ⟨hgood, hvalues⟩ := Payload.signatureInfo_eq_ok.mp h.signature
    exact Payload.signatureInfo_eq_ok.mpr
      ⟨hgood, fun name hname => (hinfo name hname).symm.trans (hvalues name hname)⟩
  exact Except.ok.inj (hread.symm.trans h'.signature)

end HeldBy

end Transaction

/-! ## Binding -/

/--
For every payload that is read there is something that each hash is taken of.
Two payloads, of whatever lengths and with whatever cosignatures, that share
what the signing hash is taken of have the same network, version, kind,
highest fee and deadline, and the same body but for its cosignatures; two
that share what the transaction hash is taken of have the same signature and
kind, and the same body but for its cosignatures.
-/
theorem Payload.hash_inputs_bind {p q : Bytes} {tx other : Transaction}
    (hp : Transaction.read p = .ok tx) (hq : Transaction.read q = .ok other)
    (generation : Option GenerationHash) :
    ((∃ input, signingInput p generation = .ok input
          ∧ signingHash p generation = .ok (Hash.sha3_256 input))
        ∧ ∃ input, hashInput p generation = .ok input
          ∧ transactionHash p generation = .ok (Hash.sha3_256 input))
      ∧ (signingInput p generation = signingInput q generation →
        tx.network = other.network ∧ tx.version = other.version ∧ tx.kind = other.kind
          ∧ tx.maxFee = other.maxFee ∧ tx.deadline = other.deadline
          ∧ tx.body.withoutCosignatures = other.body.withoutCosignatures)
      ∧ (hashInput p generation = hashInput q generation →
        tx.signature = other.signature ∧ tx.kind = other.kind
          ∧ tx.body.withoutCosignatures = other.body.withoutCosignatures) := by
  obtain ⟨values, post, h⟩ := Transaction.heldBy_of_read hp
  obtain ⟨others, post', h'⟩ := Transaction.heldBy_of_read hq
  have hsigned := h.signingInput_eq generation
  have hhashed := h.hashInput_eq generation
  refine ⟨⟨⟨_, hsigned, ?_⟩, _, hhashed, ?_⟩, fun heq => ?_, fun heq => ?_⟩
  · rw [signingHash, hsigned]
    rfl
  · rw [transactionHash, hhashed]
    rfl
  · rw [hsigned, h'.signingInput_eq generation] at heq
    obtain ⟨⟨hnetwork, hversion, hkind⟩, ⟨hmaxFee, hdeadline⟩, hbody⟩ :=
      h.eq_of_signed h' (List.append_cancel_left (Except.ok.inj heq))
    exact ⟨hnetwork, hversion, hkind, hmaxFee, hdeadline, hbody⟩
  · rw [hhashed, h'.hashInput_eq generation] at heq
    simp only [Except.ok.injEq, List.append_assoc] at heq
    -- the signature and the code of the kind take the same room in both
    obtain ⟨hsignature, hrest⟩ := List.append_inj (List.append_cancel_left heq)
      (h.framed.length_signature.trans h'.framed.length_signature.symm)
    obtain ⟨hcode, hbody⟩ := List.append_inj hrest
      ((LittleEndian.length_encode 2 _).trans (LittleEndian.length_encode 2 _).symm)
    have hkind := TransactionKind.eq_of_encode hcode
    rw [← hkind] at hbody
    obtain ⟨hinfo, hbody⟩ := h.eq_of_hashed h' hsignature hkind hbody
    exact ⟨hinfo, hkind, hbody⟩

theorem Payload.hash_inputs_bind_cosignedAggregate :
    ∃ p q, p ≠ q ∧ Transaction.read p = .ok Transaction.cosignedAggregate
      ∧ Transaction.read q = .ok (Transaction.cosignedAggregate.cosigned [⟨.base, ⟨.zero⟩⟩])
      ∧ signingInput p none = signingInput q none ∧ hashInput p none = hashInput q none
      ∧ Transaction.cosignedAggregate.maxFee
        = (Transaction.cosignedAggregate.cosigned [⟨.base, ⟨.zero⟩⟩]).maxFee
      ∧ Transaction.cosignedAggregate.body.withoutCosignatures
        = (Transaction.cosignedAggregate.cosigned [⟨.base, ⟨.zero⟩⟩]).body.withoutCosignatures := by
  obtain ⟨p, hwrite, hlength⟩ := Transaction.write_cosignedAggregate
  have hp : Transaction.read p = .ok Transaction.cosignedAggregate :=
    Transaction.read_of_write Transaction.accepted_cosignedAggregate hwrite
  obtain ⟨more, hmore⟩ : ∃ more : List Cosignature, more = [⟨.base, ⟨.zero⟩⟩] := ⟨_, rfl⟩
  have haccepted : ∀ cosignature ∈ more, cosignature.signer.Accepted := by
    rw [hmore]
    exact List.forall_mem_singleton.mpr PublicKey.accepted_base
  have hrows : (more.flatMap cosignatureBytes).length = 96 := by
    rw [Bytes.length_flatMap length_cosignatureBytes, hmore]
    rfl
  obtain ⟨q, hgrown⟩ : ∃ q, withSize (p ++ more.flatMap cosignatureBytes) = .ok q := by
    refine ⟨_, if_pos ?_⟩
    rw [List.length_append]
    omega
  have hq := (Transaction.read_grown hp rfl hgrown).mpr ⟨haccepted, rfl⟩
  obtain ⟨hsigning, hhash⟩ := Transaction.inputs_grown hp rfl hgrown none
  obtain ⟨-, hsigned, hhashed⟩ := hash_inputs_bind hp hq none
  obtain ⟨-, -, -, hmaxFee, -, hbody⟩ := hsigned hsigning.symm
  rw [← hmore]
  refine ⟨p, q, ?_, hp, hq, hsigning.symm, hhash.symm, hmaxFee, hbody⟩
  rintro rfl
  have hcount := congrArg (fun tx => tx.body.cosignatures.length)
    (Except.ok.inj (hp.symm.trans hq))
  rw [hmore] at hcount
  exact absurd hcount (by decide)

end LedgerTx
