import LedgerTx.Proofs.Bytes
import LedgerTx.Proofs.Layout.Refusal
import LedgerTx.Proofs.Transaction.Frame

/-!
# Headers and cosignatures

Header values and the values of a body are written together.  The readers of
a header accept the values that are written for what they return; a
signature of zero bytes is written like none and read as none.
-/

namespace LedgerTx

open Layout (FieldSet FieldSpec Value Schema Same Fits Nested fieldNames rawFields denseFields
  slackFields slotLimit)
open Layout.FieldSet

variable {fields : FieldSet}

/-! ## Header values -/

theorem fieldNames_join (header body : Schema) :
    fieldNames (Schema.join [header, body]) = fieldNames header.fields ++ fieldNames body.fields := by
  rw [Schema.join_pair, fieldNames, List.map_append]
  rfl

/-- Values of a header, and no others, that tell the kind of the body. -/
structure IsHead (header : Schema) (kind : TransactionKind) (head : FieldSet) : Prop where
  fits : Fits head header.fields
  names : ∀ name ∈ head.map Prod.fst, name ∈ fieldNames header.fields
  kind_eq : head.get? "type" = some (.coded kind)

namespace IsHead

variable {header : Schema} {kindPosition size : Nat} (hheader : IsHeader header kindPosition size)
  {kind : TransactionKind} {head body : FieldSet} (hhead : IsHead header kind head)

include hhead

theorem same_head (body : FieldSet) : Same head (head ++ body) header.fields := by
  intro name hname
  obtain ⟨⟨name, layout⟩, hmem, rfl⟩ := List.mem_map.mp hname
  obtain ⟨value, hvalue, -⟩ := hhead.fits name layout hmem
  rw [get?_append, hvalue, Option.some_or]

theorem kind_append (body : FieldSet) : (head ++ body).get? "type" = some (.coded kind) := by
  rw [get?_append, hhead.kind_eq, Option.some_or]

include hheader

theorem same_body (body : FieldSet) : Same body (head ++ body) kind.schema.fields := by
  intro name hname
  have hnone : head.get? name = none :=
    get?_eq_none.mpr fun hmem => hheader.not_mem_of_mem kind hname (hhead.names name hmem)
  rw [get?_append, hnone, Option.none_or]

theorem fits_append (hbody : Fits body kind.schema.fields) :
    Fits (head ++ body) (Schema.join [header, kind.schema]) := by
  rw [Schema.join_pair, Layout.fits_append]
  constructor
  · refine hhead.fits.congr (hhead.same_head body) fun name hname => ?_
    rw [hheader.closed] at hname
    cases hname
  · have hsame := hhead.same_body hheader body
    exact hbody.congr hsame fun name hname => hsame name (kind.closed_schema name hname)

theorem nested_append (hbody : Nested body kind.schema.fields) :
    Nested (head ++ body) (Schema.join [header, kind.schema]) := by
  rw [Schema.join_pair]
  exact (hhead.fits.nested.congr (hhead.same_head body)).append
    (hbody.congr (hhead.same_body hheader body))

theorem length_raw (hbody : Fits body kind.schema.fields) :
    (rawFields (head ++ body) (Schema.join [header, kind.schema])).length
      = size + (rawFields body kind.schema.fields).length := by
  rw [hheader.length_raw (hhead.fits_append hheader hbody),
    Layout.rawFields.congr (hhead.same_body hheader body)]

theorem write_of_slots (hbody : Fits body kind.schema.fields) (post : Bytes) {factor : Nat}
    (hdense : denseFields factor (Schema.join [header, kind.schema]) = true)
    (hlimit : factor * (size + (rawFields body kind.schema.fields).length)
      + slackFields (Schema.join [header, kind.schema]) < slotLimit)
    (hlength : size + (rawFields body kind.schema.fields).length + post.length < 2 ^ 32) :
    ∃ flat bytes, Payload.flat [header, kind.schema] (head ++ body) = .ok flat
      ∧ Payload.withSize (flat ++ post) = .ok bytes
      ∧ bytes.length = size + (rawFields body kind.schema.fields).length + post.length
      ∧ Framed header kind (("size", .number bytes.length) :: (head ++ body)) post bytes := by
  have hfits := hhead.fits_append hheader hbody
  have hraw := hhead.length_raw hheader hbody
  have hleast := hheader.four_le
  have hshort : (rawFields (head ++ body) (Schema.join [header, kind.schema]) ++ post).length
      < 2 ^ 32 := by
    rw [List.length_append]
    omega
  have hwrite : Payload.withSize _ = .ok _ := if_pos hshort
  refine ⟨_, _, Framed.flat_of_fits hheader hfits hdense (hraw.symm ▸ hlimit), hwrite, ?_,
    Framed.of_raw hheader hfits (hhead.kind_append body) hwrite⟩
  rw [Framed.length_withSize (by rw [List.length_append]; omega) hwrite, List.length_append, hraw]

theorem write (hbody : Fits body kind.schema.fields) (post : Bytes)
    (hlength : size + (rawFields body kind.schema.fields).length + post.length ≤ 2 ^ 28) :
    ∃ flat bytes, Payload.flat [header, kind.schema] (head ++ body) = .ok flat
      ∧ Payload.withSize (flat ++ post) = .ok bytes
      ∧ bytes.length = size + (rawFields body kind.schema.fields).length + post.length
      ∧ Framed header kind (("size", .number bytes.length) :: (head ++ body)) post bytes := by
  have hwf := hheader.wellFormed kind
  have hslack := hwf.slack
  refine hhead.write_of_slots hheader hbody post hwf.dense ?_ (by omega)
  rw [slotLimit]
  omega

theorem flat_sameRefusal {head' : FieldSet} (hhead' : IsHead header kind head')
    (body : FieldSet) : SameRefusal (Payload.flat [header, kind.schema] (head ++ body))
      (Payload.flat [header, kind.schema] (head' ++ body)) := by
  have hshaped := hhead.fits.shaped.congr (hhead.same_head body)
  have hshaped' := hhead'.fits.shaped.congr (hhead'.same_head body)
  have hsame : Same (head ++ body) (head' ++ body) kind.schema.fields := fun name hname =>
    (hhead.same_body hheader body name hname).symm.trans (hhead'.same_body hheader body name hname)
  have hwf := hheader.wellFormed kind
  rw [Schema.join_pair] at hwf
  rw [Payload.flat, Payload.flat, Schema.join_pair]
  refine (Layout.encode_sameRefusal_of_same hheader.inline hshaped hshaped' hsame).lift.bind ?_
  intro table table' htable htable'
  exact (Layout.flatten_sameRefusal hwf hheader.inline kind.closed_schema (lift_eq_ok.mp htable)
    (lift_eq_ok.mp htable') hsame).lift

theorem flat_eq_error {body : FieldSet} {cause : Layout.Error}
    (h : Layout.contents (Layout.inlineSize (Schema.join [header, kind.schema])) body
      kind.schema.fields = .error cause) :
    Payload.flat [header, kind.schema] (head ++ body) = .error (.layout cause) := by
  have hshaped := hhead.fits.shaped.congr (hhead.same_head body)
  rw [Layout.contents.congr _ (hhead.same_body hheader body), Schema.join_pair] at h
  have hcontents := (Layout.contents_sameRefusal hheader.inline hshaped _ _ cause).mpr h
  have hencode := (Layout.encode_sameRefusal _ _ cause).mpr hcontents
  rw [Payload.flat, Schema.join_pair]
  exact bind_eq_error.mpr (.inl (lift_eq_error hencode))

theorem rewrite {head' : FieldSet} (hhead' : IsHead header kind head')
    (hbody : Fits body kind.schema.fields) {flat : Bytes}
    (hflat : Payload.flat [header, kind.schema] (head ++ body) = .ok flat) :
    Payload.flat [header, kind.schema] (head' ++ body)
      = .ok (rawFields (head' ++ body) (Schema.join [header, kind.schema])) := by
  obtain ⟨flat', hflat'⟩ := (hhead.flat_sameRefusal hheader hhead' body).exists_ok hflat
  obtain ⟨table, htable, -⟩ := bind_eq_ok.mp hflat'
  exact bind_eq_ok.mpr ⟨table, htable, lift_eq_ok.mpr ((hheader.wellFormed kind).flatten_of_encode
    (hhead'.fits_append hheader hbody) (lift_eq_ok.mp htable))⟩

end IsHead

/-- Values that are those of a header, its size apart, and those of a body. -/
structure Carries (header : Schema) (kind : TransactionKind) (values head body : FieldSet) :
    Prop where
  fits : Fits values (Schema.join [header, kind.schema])
  head : ∀ name ∈ fieldNames header.fields, name ≠ "size" → values.get? name = head.get? name
  body : Same values body kind.schema.fields

namespace Carries

variable {header : Schema} {kindPosition size : Nat} (hheader : IsHeader header kindPosition size)
  {kind : TransactionKind} {values head body : FieldSet} {n : Value} {post bytes : Bytes}

theorem fits_body (h : Carries header kind values head body) : Fits values kind.schema.fields := by
  have hfits := h.fits
  rw [Schema.join_pair, Layout.fits_append] at hfits
  exact hfits.2

include hheader

theorem of_framed (hhead : IsHead header kind head)
    (h : Framed header kind (("size", n) :: (head ++ body)) post bytes) :
    Carries header kind (("size", n) :: (head ++ body)) head body where
  fits := h.fits
  head name hname hne := by
    rw [get?_cons_ne hne]
    exact (hhead.same_head body name hname).symm
  body name hname := by
    have hne : name ≠ "size" := by
      rintro rfl
      exact hheader.not_mem_of_mem kind hname hheader.size_mem
    rw [get?_cons_ne hne]
    exact (hhead.same_body hheader body name hname).symm

theorem parse (hhead : IsHead header kind head)
    (h : Framed header kind (("size", n) :: (head ++ body)) post bytes)
    (hend : Layout.boundedFields (Schema.join [header, kind.schema]) = true ∨ post = []) :
    ∃ decoded, Layout.parse (Schema.join [header, kind.schema]) bytes = .ok decoded
      ∧ bytes.length = decoded.extent + post.length ∧ bytes.drop decoded.extent = post
      ∧ Carries header kind decoded.fields head body := by
  have hcarries := of_framed hheader hhead h
  have hselect := h.same_select hheader
  have hsplit := fieldNames_join header kind.schema
  refine ⟨_, h.parse_eq hheader hend, ?_, ?_, ?_, fun name hname hne => ?_, fun name hname => ?_⟩
  · exact (congrArg List.length h.bytes_eq).trans List.length_append
  · exact (congrArg (List.drop _) h.bytes_eq).trans List.drop_left
  · exact (hheader.wellFormed kind).fits_congr hselect h.fits
  · rw [← hselect name (hsplit ▸ List.mem_append_left _ hname)]
    exact hcarries.head name hname hne
  · rw [← hselect name (hsplit ▸ List.mem_append_right _ hname)]
    exact hcarries.body name hname

theorem eq_written (hhead : IsHead header kind head) {written : Bytes}
    (h : Framed header kind values post bytes) (hcarries : Carries header kind values head body)
    (hwritten : Framed header kind (("size", n) :: (head ++ body)) post written) :
    written = bytes := by
  have hcarries' := of_framed hheader hhead hwritten
  refine (Framed.ext hheader h hwritten fun name hname hne => ?_).symm
  rw [fieldNames_join] at hname
  rcases List.mem_append.mp hname with hleft | hright
  · exact (hcarries.head name hleft hne).trans (hcarries'.head name hleft hne).symm
  · exact (hcarries.body name hright).trans (hcarries'.body name hright).symm

end Carries

/-! ## Network and version -/

theorem versionWord_lt (network : Network) (version : UInt8) :
    versionWord network version < 2 ^ 16 := by
  have hnetwork := network.byte.toNat_lt
  have hversion := version.toNat_lt
  rw [Network.byte_toNat] at hnetwork
  rw [versionWord]
  omega

/-- The version word has the byte of the network above the version. -/
theorem toNat_eq_versionWord {word : UInt16} {network : Network} {version : UInt8} :
    word.toNat = versionWord network version
      ↔ Network.ofByte? (word >>> 8).toUInt8 = some network ∧ word.toUInt8 = version := by
  have hword := word.toNat_lt
  have hversion := version.toNat_lt
  have hhigh : (word >>> 8).toUInt8.toNat = word.toNat / 256 := by
    simp only [UInt16.toNat_toUInt8, UInt16.toNat_shiftRight, Nat.shiftRight_eq_div_pow]
    simp
    omega
  have hlow : word.toUInt8.toNat = word.toNat % 256 := UInt16.toNat_toUInt8 word
  rw [versionWord, Network.ofByte?, hhigh]
  constructor
  · intro h
    have hcode : word.toNat / 256 = Coded.code network := by omega
    rw [hcode, Coded.ofCode?_code]
    refine ⟨rfl, UInt8.toNat_inj.mp ?_⟩
    rw [hlow]
    omega
  · rintro ⟨hnetwork, rfl⟩
    rw [Coded.code_of_ofCode? hnetwork, hlow]
    omega

theorem Payload.networkVersion_eq_ok {network : Network} {version : UInt8} :
    networkVersion fields = .ok (network, version)
      ↔ fields.get? "version" = some (.number (versionWord network version)) := by
  simp only [networkVersion, bind_eq_ok, lift_eq_ok, scalar16_eq_ok]
  constructor
  · rintro ⟨word, hword, h⟩
    split at h
    · rename_i found hfound
      cases h
      rw [hword, toNat_eq_versionWord.mpr ⟨hfound, rfl⟩]
    · cases h
  · intro h
    have hword : (UInt16.ofNat (versionWord network version)).toNat
        = versionWord network version := by
      rw [UInt16.toNat_ofNat', Nat.mod_eq_of_lt (versionWord_lt network version)]
    obtain ⟨hnetwork, hversion⟩ := toNat_eq_versionWord.mp hword
    refine ⟨_, by rw [h, hword], ?_⟩
    simp only [hnetwork, hversion]

/-! ## Signature -/

def SignatureInfo.isZero (info : SignatureInfo) : Bool :=
  info.signature.bytes.all (· == 0) && info.signer.bytes.all (· == 0)

theorem Block.eq_zero {size : Nat} {block : Block size} :
    block.bytes.all (· == 0) = true ↔ block = .zero := by
  constructor
  · intro h
    apply Block.ext
    rw [zero, List.eq_replicate_iff]
    exact ⟨block.length_bytes, fun byte hbyte => eq_of_beq (List.all_eq_true.mp h byte hbyte)⟩
  · rintro rfl
    rw [List.all_eq_true]
    intro byte hbyte
    rw [List.eq_of_mem_replicate hbyte]
    rfl

def signatureFields : List FieldSpec := [.array "signature" 64, .array "signer" 32]

theorem signatureFields_subset {name : String} (h : name ∈ fieldNames signatureFields) :
    name ∈ fieldNames transactionHeader.fields ∧ name ≠ "size" := by
  have hall : ∀ name ∈ fieldNames signatureFields,
      name ∈ fieldNames transactionHeader.fields ∧ name ≠ "size" := by decide
  exact hall name h

namespace Payload

/-- A signature of zero bytes is written like none. -/
theorem signatureValues_filter (info : Option SignatureInfo) :
    signatureValues (info.filter (!·.isZero)) = signatureValues info := by
  cases info with
  | none => rfl
  | some info =>
      cases hzero : info.isZero with
      | false => rw [Option.filter_some, hzero]; rfl
      | true =>
          rw [Option.filter_some, hzero]
          obtain ⟨hsignature, hsigner⟩ := Bool.and_eq_true_iff.mp hzero
          have hblock : info.signature.block = .zero := Block.eq_zero.mp hsignature
          have hblock' : info.signer.block = .zero := Block.eq_zero.mp hsigner
          simp only [signatureValues, hblock, hblock']
          rfl

theorem signatureInfo_eq_ok {info : Option SignatureInfo} :
    signatureInfo fields = .ok info
      ↔ (∀ found ∈ info, found.isZero = false ∧ found.signer.Accepted)
        ∧ Same fields (signatureValues info) signatureFields := by
  simp only [signatureInfo, bind_eq_ok, lift_eq_ok, block_eq_ok, signatureFields, FieldSpec.array,
    Layout.same_cons, Layout.Same.nil, and_true]
  constructor
  · rintro ⟨signature, hsignature, signer, hsigner, h⟩
    split at h
    · rename_i hzero
      obtain ⟨hzero, hzero'⟩ := Bool.and_eq_true_iff.mp hzero
      cases h
      rw [hsignature, hsigner, Block.eq_zero.mp hzero, Block.eq_zero.mp hzero']
      refine ⟨?_, rfl, rfl⟩
      rintro _ ⟨⟩
    · rename_i hnonzero
      obtain ⟨key, hkey, h⟩ := bind_eq_ok.mp h
      cases h
      obtain ⟨haccepted, rfl⟩ := Content.key_eq_ok.mp hkey
      refine ⟨?_, hsignature, hsigner⟩
      rintro _ ⟨⟩
      exact ⟨eq_false_of_ne_true hnonzero, haccepted⟩
  · rintro ⟨hgood, hsignature, hsigner⟩
    cases info with
    | none =>
        refine ⟨.zero, hsignature, .zero, hsigner, if_pos ?_⟩
        rw [Block.eq_zero.mpr rfl, Block.eq_zero.mpr rfl]
        rfl
    | some info =>
        obtain ⟨hnonzero, haccepted⟩ := hgood info rfl
        refine ⟨info.signature.block, hsignature, info.signer.block, hsigner, ?_⟩
        rw [if_neg]
        · exact bind_eq_ok.mpr ⟨_, Content.key_eq_ok.mpr ⟨haccepted, rfl⟩, rfl⟩
        · exact ne_true_of_eq_false hnonzero

/-! ## Cosignatures -/

theorem length_cosignatureBytes (cosignature : Cosignature) :
    (cosignatureBytes cosignature).length = cosignatureSize := by
  have hsigner : cosignature.signer.bytes.length = 32 := cosignature.signer.block.length_bytes
  have hsignature : cosignature.signature.bytes.length = 64 :=
    cosignature.signature.block.length_bytes
  rw [cosignatureBytes, List.length_append, hsigner, hsignature]
  rfl

theorem cosignatureOf_eq_ok {bytes : Bytes} {cosignature : Cosignature} :
    cosignatureOf bytes = .ok cosignature
      ↔ cosignature.signer.Accepted ∧ bytes = cosignatureBytes cosignature := by
  unfold cosignatureOf
  constructor
  · intro h
    split at h
    · rename_i signer signature hsigner hsignature
      obtain ⟨key, hkey, h⟩ := bind_eq_ok.mp h
      cases h
      obtain ⟨haccepted, rfl⟩ := Content.key_eq_ok.mp hkey
      refine ⟨haccepted, ?_⟩
      have hfront : key.bytes = bytes.take 32 := Block.bytes_of_ofBytes? hsigner
      have hback : signature.bytes = bytes.drop 32 := Block.bytes_of_ofBytes? hsignature
      rw [cosignatureBytes, hfront, Signature.bytes, hback, List.take_append_drop]
    · cases h
  · rintro ⟨haccepted, rfl⟩
    obtain ⟨⟨signer⟩, ⟨signature⟩⟩ := cosignature
    have hfront : (cosignatureBytes ⟨⟨signer⟩, ⟨signature⟩⟩).take 32 = signer.bytes :=
      List.take_left' signer.length_bytes
    have hback : (cosignatureBytes ⟨⟨signer⟩, ⟨signature⟩⟩).drop 32 = signature.bytes :=
      List.drop_left' signer.length_bytes
    rw [hfront, hback, Block.ofBytes?_bytes, Block.ofBytes?_bytes]
    exact bind_eq_ok.mpr ⟨_, Content.key_eq_ok.mpr ⟨haccepted, rfl⟩, rfl⟩

theorem cosignatures_eq_ok {bytes : Bytes} {list : List Cosignature} :
    cosignatures bytes = .ok list
      ↔ (∀ cosignature ∈ list, cosignature.signer.Accepted)
        ∧ bytes = list.flatMap cosignatureBytes := by
  have hread : (Bytes.chunks cosignatureSize bytes).mapM cosignatureOf = .ok list
      ↔ (∀ cosignature ∈ list, cosignature.signer.Accepted)
        ∧ Bytes.chunks cosignatureSize bytes = list.map cosignatureBytes :=
    mapM_eq_ok_map fun piece _ _ => cosignatureOf_eq_ok
  unfold cosignatures
  constructor
  · intro h
    split at h
    · obtain ⟨haccepted, hchunks⟩ := hread.mp h
      refine ⟨haccepted, ?_⟩
      rw [← @Bytes.flatten_chunks cosignatureSize (by decide) bytes, hchunks, List.flatMap_def]
    · cases h
  · rintro ⟨haccepted, rfl⟩
    have hlength : (list.flatMap cosignatureBytes).length % cosignatureSize = 0 := by
      rw [Bytes.length_flatMap length_cosignatureBytes]
      exact Nat.mul_mod_left _ _
    rw [if_pos hlength]
    exact hread.mpr ⟨haccepted, Bytes.chunks_flatMap (by decide) length_cosignatureBytes list⟩

end Payload

end LedgerTx
