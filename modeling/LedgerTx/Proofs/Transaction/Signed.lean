import LedgerTx.Proofs.Key.Signature
import LedgerTx.Proofs.Transaction.Payload
import LedgerTx.Transaction.Signed

/-!
# Signing

The 96 bytes of signature and signer have a fixed place in a payload, and no
other byte depends on them.  So the signed hash is the same before and after
a signature is put in, and what is checked is what was signed.
-/

namespace LedgerTx

open Layout (FieldSet FieldSpec Value Schema Same Fits fieldNames rawFields)
open Layout.FieldSet

/-! ## The place of the signature -/

namespace Payload

theorem salt_eq (generation : Option GenerationHash) :
    salt generation = generation.elim [] Block.bytes := by
  cases generation <;> rfl

def signatureBytes : Option SignatureInfo → Bytes
  | some info => info.signature.bytes ++ info.signer.bytes
  | none => List.replicate 96 0

theorem length_signatureBytes (info : Option SignatureInfo) : (signatureBytes info).length = 96 := by
  cases info with
  | none => rfl
  | some info =>
      have hsignature : info.signature.bytes.length = 64 := info.signature.block.length_bytes
      have hsigner : info.signer.bytes.length = 32 := info.signer.block.length_bytes
      rw [signatureBytes, List.length_append, hsignature, hsigner]

/-- A payload with another signature in the place of the one that is there. -/
def withSignature (payload : Bytes) (info : Option SignatureInfo) : Bytes :=
  payload.take signaturePosition ++ (signatureBytes info ++ payload.drop signedPosition)

theorem parts_of_signature {front : Bytes} (info : Option SignatureInfo) (rest : Bytes)
    (h : front.length = signaturePosition) :
    (front ++ (signatureBytes info ++ rest)).take signaturePosition = front
      ∧ (front ++ (signatureBytes info ++ rest)).drop signedPosition = rest := by
  constructor
  · rw [List.take_left' h]
  · rw [← List.append_assoc]
    apply List.drop_left'
    rw [List.length_append, length_signatureBytes, h]
    rfl

theorem parts_withSignature {payload : Bytes} (info : Option SignatureInfo)
    (h : headerSize ≤ payload.length) :
    (withSignature payload info).take signaturePosition = payload.take signaturePosition
      ∧ (withSignature payload info).drop signedPosition = payload.drop signedPosition := by
  apply parts_of_signature
  rw [headerSize] at h
  rw [List.length_take, signaturePosition]
  omega

theorem length_withSignature {payload : Bytes} (info : Option SignatureInfo)
    (h : headerSize ≤ payload.length) : (withSignature payload info).length = payload.length := by
  rw [headerSize] at h
  simp only [withSignature, List.length_append, List.length_take, List.length_drop,
    length_signatureBytes, signaturePosition, signedPosition]
  omega

theorem splice_withSignature {payload : Bytes} (old : Option SignatureInfo) (info : SignatureInfo)
    (h : headerSize ≤ payload.length) :
    splice (withSignature payload old) info.signature info.signer
      = withSignature payload (some info) := by
  obtain ⟨hfront, hrest⟩ := parts_withSignature old h
  rw [splice, hfront, hrest, withSignature, signatureBytes, List.append_assoc, List.append_assoc,
    List.append_assoc]

theorem withSize_append {front rest : Bytes} (h : front.length = 4) :
    withSize (front ++ rest) = if 4 + rest.length < 2 ^ 32
      then .ok (LittleEndian.encode 4 (4 + rest.length) ++ rest)
      else .error (.layout .tooLarge) := by
  rw [withSize, List.length_append, h, List.drop_left' h]

end Payload

namespace Transaction

def signedFields (kind : TransactionKind) : List FieldSpec :=
  [.u32 "reserved", .u16 "version", .u16 "type", .u64 "max_fee", .u64 "deadline"]
    ++ kind.schema.fields

theorem rawFields_headValues (tx : Transaction) (values : FieldSet) :
    rawFields (tx.headValues ++ values) (Schema.join [transactionHeader, tx.kind.schema])
      = List.replicate 4 0 ++ (Payload.signatureBytes tx.signature
        ++ rawFields (tx.headValues ++ values) (signedFields tx.kind)) := by
  obtain ⟨network, version, maxFee, deadline, info, body⟩ := tx
  rw [Schema.join_pair]
  cases info with
  | none =>
      have hzero : Payload.signatureBytes none = List.replicate 64 0 ++ List.replicate 32 0 := rfl
      rw [hzero, List.append_assoc]
      rfl
  | some info =>
      rw [Payload.signatureBytes, List.append_assoc]
      rfl

theorem get?_withSignature (tx : Transaction) (info : Option SignatureInfo) {name : String}
    (h : name ∉ fieldNames signatureFields) :
    { tx with signature := info }.headValues.get? name = tx.headValues.get? name := by
  have hnone (info : Option SignatureInfo) : (Payload.signatureValues info).get? name = none := by
    apply get?_eq_none.mpr
    cases info with
    | none => exact h
    | some info => exact h
  simp only [headValues, get?_append, hnone, Option.or_none]
  rfl

theorem rawFields_withSignature (tx : Transaction) (info : Option SignatureInfo)
    (values : FieldSet) :
    rawFields ({ tx with signature := info }.headValues ++ values) (signedFields tx.kind)
      = rawFields (tx.headValues ++ values) (signedFields tx.kind) := by
  refine Layout.rawFields.congr fun name hname => ?_
  have hunused : name ∉ fieldNames signatureFields := by
    intro hmem
    have hheader := (signatureFields_subset hmem).1
    rw [signedFields, fieldNames, List.map_append] at hname
    rcases List.mem_append.mp hname with hfront | hbody
    · have hall : ∀ name ∈ fieldNames signatureFields,
          name ∉ ["reserved", "version", "type", "max_fee", "deadline"] := by decide
      exact hall name hmem hfront
    · exact isHeader_transaction.not_mem_of_mem tx.kind hbody hheader
  rw [get?_append, get?_append, tx.get?_withSignature info hunused]

theorem write_withSignature {tx : Transaction} {bytes : Bytes} (info : Option SignatureInfo)
    (h : tx.write = .ok bytes) :
    { tx with signature := info }.write = .ok (Payload.withSignature bytes info) := by
  obtain ⟨values, hvalues, hfits, hflat, hwrite⟩ := steps_of_write h
  have hhead' : IsHead transactionHeader tx.kind ({ tx with signature := info }.headValues) :=
    ({ tx with signature := info } : Transaction).isHead_headValues
  have hflat' := tx.isHead_headValues.rewrite isHeader_transaction hhead' hfits hflat
  have hraw' := ({ tx with signature := info } : Transaction).rawFields_headValues values
  rw [show ({ tx with signature := info } : Transaction).kind = tx.kind from rfl,
    tx.rawFields_withSignature info values] at hraw'
  rw [tx.rawFields_headValues values] at hwrite
  rw [hraw'] at hflat'
  refine bind_eq_ok.mpr ⟨values, hvalues, bind_eq_ok.mpr ⟨_, hflat', ?_⟩⟩
  -- both payloads have the same length, so they are written with the same size
  have hlength (rest : Bytes) : (Payload.signatureBytes info ++ rest).length
      = (Payload.signatureBytes tx.signature ++ rest).length := by
    rw [List.length_append, List.length_append, Payload.length_signatureBytes,
      Payload.length_signatureBytes]
  rw [List.append_assoc, List.append_assoc, Payload.withSize_append rfl] at hwrite ⊢
  rw [hlength]
  split at hwrite
  · rename_i hshort
    cases hwrite
    obtain ⟨hfront, hrest⟩ := Payload.parts_of_signature tx.signature
      (rawFields (tx.headValues ++ values) (signedFields tx.kind) ++ tx.trailing)
      (LittleEndian.length_encode 4 _)
    rw [Payload.withSignature, hfront, hrest]
    exact if_pos hshort
  · cases hwrite

/-- Transactions with the same network and the same body are written at the same length. -/
theorem write_of_same_body {tx : Transaction} {bytes : Bytes} (h : tx.write = .ok bytes)
    (tx' : Transaction) (hnetwork : tx'.network = tx.network) (hbody : tx'.body = tx.body) :
    ∃ bytes', tx'.write = .ok bytes' ∧ bytes'.length = bytes.length := by
  obtain ⟨values, hvalues, hfits, hflat, hwrite⟩ := steps_of_write h
  have hkind : tx'.kind = tx.kind := congrArg Body.kind hbody
  have htrailing : tx'.trailing = tx.trailing := by rw [trailing, trailing, hbody]
  have hhead := tx.isHead_headValues
  have hhead' : IsHead transactionHeader tx.kind tx'.headValues := hkind ▸ tx'.isHead_headValues
  have hraw := hhead.length_raw isHeader_transaction hfits
  have hraw' := hhead'.length_raw isHeader_transaction hfits
  obtain ⟨bytes', hwrite', hlength⟩ := Framed.withSize_of_length_eq
    (rawFields (tx'.headValues ++ values) (Schema.join [transactionHeader, tx.kind.schema])
      ++ tx.trailing)
    (by rw [List.length_append, List.length_append, hraw, hraw'])
    (by rw [List.length_append, hraw, Payload.headerSize]; omega) hwrite
  rw [← htrailing] at hwrite'
  have hflat' := hhead.rewrite isHeader_transaction hhead' hfits hflat
  rw [← hkind] at hflat'
  refine ⟨bytes', bind_eq_ok.mpr ⟨values, ?_, bind_eq_ok.mpr ⟨_, hflat', ?_⟩⟩, hlength⟩
  · rw [hnetwork, hbody]
    exact hvalues
  · rw [hkind]
    exact hwrite'

/-! ## Hashes of what is written -/

theorem bodyEnd_of_write {tx : Transaction} {bytes : Bytes} (h : tx.write = .ok bytes) :
    ∃ stop, Payload.bodyEnd bytes = .ok stop ∧ bytes.length = stop + tx.trailing.length := by
  obtain ⟨values, -, hframed⟩ := framed_of_write h
  obtain ⟨decoded, hparse, hlength, -, -⟩ := Carries.parse isHeader_transaction
    tx.isHead_headValues hframed tx.body.bounded_or_nil
  have hkind : Payload.kind bytes = .ok tx.kind := hframed.kindAt_eq isHeader_transaction
  exact ⟨decoded.extent, bind_eq_ok.mpr ⟨tx.kind, hkind, bind_eq_ok.mpr
    ⟨decoded, lift_eq_ok.mpr hparse, rfl⟩⟩, hlength⟩

theorem trailing_withoutCosignatures (tx : Transaction) : tx.withoutCosignatures.trailing = [] := by
  unfold trailing withoutCosignatures Body.withoutCosignatures
  cases tx.body <;> rfl

theorem length_of_write {tx : Transaction} {bytes : Bytes} (h : tx.write = .ok bytes) :
    Payload.headerSize ≤ bytes.length ∧ Payload.declaredSize bytes = bytes.length := by
  obtain ⟨values, -, hframed⟩ := framed_of_write h
  exact Payload.length_of_kindAt (hframed.kindAt_eq isHeader_transaction)
    (hframed.checkSize_eq isHeader_transaction)

theorem signingHash_of_write {tx : Transaction} {bytes : Bytes} (generation : Option GenerationHash)
    (htrailing : tx.trailing = []) (h : tx.write = .ok bytes) :
    Payload.signingHash bytes generation
      = .ok (Hash.sha3_256 (Payload.salt generation ++ bytes.drop Payload.signedPosition)) := by
  obtain ⟨stop, hstop, hlength⟩ := bodyEnd_of_write h
  rw [htrailing, List.length_nil, Nat.add_zero] at hlength
  refine bind_eq_ok.mpr ⟨_, bind_eq_ok.mpr ⟨stop, hstop, rfl⟩, ?_⟩
  rw [← hlength, List.take_length]

theorem transactionHash_of_write {tx : Transaction} {bytes : Bytes}
    (generation : Option GenerationHash) (h : tx.write = .ok bytes) :
    ∃ hash, Payload.transactionHash bytes generation = .ok hash := by
  obtain ⟨stop, hstop, -⟩ := bodyEnd_of_write h
  exact ⟨_, bind_eq_ok.mpr ⟨_, bind_eq_ok.mpr ⟨stop, hstop, rfl⟩, rfl⟩⟩

/-! ## Signing -/

/-- The transaction without its signature and without cosignatures. -/
def bare (tx : Transaction) : Transaction :=
  { tx.withoutCosignatures with signature := none }

theorem kind_bare (tx : Transaction) : tx.bare.kind = tx.kind := by
  unfold kind bare withoutCosignatures Body.withoutCosignatures
  cases tx.body <;> rfl

theorem cosignatures_bare (tx : Transaction) : tx.bare.body.cosignatures = [] := by
  unfold bare withoutCosignatures Body.withoutCosignatures
  cases tx.body <;> rfl

theorem sign_of_write {tx : Transaction} {bytes : Bytes} (keys : KeyPair)
    (generation : Option GenerationHash) (h : tx.bare.write = .ok bytes) {hash : Block 32}
    (hhash : Hash.sha3_256 (Payload.salt generation ++ bytes.drop Payload.signedPosition) = hash) :
    let payload := Payload.withSignature bytes (some ⟨keys.sign hash.bytes, keys.publicKey⟩)
    ∃ identity, tx.sign keys generation
        = .ok ⟨identity, payload, keys.publicKey, tx.kind, tx.network⟩
      ∧ { tx.bare with signature := some ⟨keys.sign hash.bytes, keys.publicKey⟩ }.write
        = .ok payload
      ∧ Payload.transactionHash payload generation = .ok identity := by
  have hlength := (length_of_write h).1
  have hwritten : tx.withoutCosignatures.write = .ok _ := write_withSignature tx.signature h
  have hsigned := write_withSignature (some ⟨keys.sign hash.bytes, keys.publicKey⟩) h
  have hsigningHash := signingHash_of_write generation tx.trailing_withoutCosignatures hwritten
  rw [(Payload.parts_withSignature _ hlength).2, hhash] at hsigningHash
  have hsplice := Payload.splice_withSignature tx.signature
    ⟨keys.sign hash.bytes, keys.publicKey⟩ hlength
  obtain ⟨identity, hidentity⟩ := transactionHash_of_write generation hsigned
  refine ⟨identity, ?_, hsigned, hidentity⟩
  refine bind_eq_ok.mpr ⟨_, hwritten, bind_eq_ok.mpr ⟨hash, hsigningHash, bind_eq_ok.mpr
    ⟨identity, ?_, ?_⟩⟩⟩
  · rw [hsplice]
    exact hidentity
  · rw [hsplice]

theorem length_of_sign {tx : Transaction} {bytes : Bytes} (hnone : tx.body.cosignatures = [])
    (h : tx.write = .ok bytes) (keys : KeyPair) (generation : Option GenerationHash) :
    ∃ signed, tx.sign keys generation = .ok signed ∧ signed.payload.length = bytes.length := by
  have hbody : tx.bare.body = tx.body := by
    unfold bare withoutCosignatures Body.withoutCosignatures
    cases hcases : tx.body with
    | operation operation => rfl
    | aggregate bonded inner cosignatures =>
        rw [hcases] at hnone
        exact congrArg (Body.aggregate bonded inner) hnone.symm
  obtain ⟨unsigned, hunsigned, hlength⟩ := write_of_same_body h tx.bare rfl hbody
  obtain ⟨identity, hsign, -⟩ := sign_of_write keys generation hunsigned rfl
  refine ⟨_, hsign, ?_⟩
  rw [Payload.length_withSignature _ (length_of_write hunsigned).1, hlength]

theorem write_of_sign {tx : Transaction} {keys : KeyPair} {generation : Option GenerationHash}
    {signed : SignedTransaction} (h : tx.sign keys generation = .ok signed) :
    ∃ bytes, tx.bare.write = .ok bytes := by
  obtain ⟨bytes, hwrite, -⟩ := bind_eq_ok.mp h
  exact ⟨_, write_withSignature none hwrite⟩

end Transaction

/-! ## Checking a signed transaction -/

theorem SignedTransaction.verify_eq {signed : SignedTransaction} {tx : Transaction}
    {info : SignatureInfo} {generation : Option GenerationHash} {hash : Block 32}
    (hread : Transaction.read signed.payload = .ok tx) (hinfo : tx.signature = some info)
    (hsigner : info.signer = signed.signer) (hkind : tx.kind = signed.kind)
    (hcosignatures : tx.body.cosignatures = [])
    (hhash : Payload.signingHash signed.payload generation = .ok hash)
    (hidentity : Payload.transactionHash signed.payload generation = .ok signed.hash) :
    signed.verify generation = liftM (info.signer.verify hash.bytes info.signature) := by
  rw [verify, hread]
  simp only [liftM, monadLift, MonadLift.monadLift, bind, Except.bind, hinfo]
  rw [if_neg (by simp [hsigner, hkind])]
  simp only [hhash, hidentity]
  cases info.signer.verify hash.bytes info.signature with
  | error e => rfl
  | ok done =>
      simp only [ne_eq, not_true_eq_false, if_false, hcosignatures]
      rfl

theorem KeyPair.isZero_eq_false (keys : KeyPair) (signature : Signature) :
    SignatureInfo.isZero ⟨signature, keys.publicKey⟩ = false := by
  rw [SignatureInfo.isZero, Bool.and_eq_false_iff]
  right
  exact eq_false_of_ne_true fun hzero => keys.publicKey_ne_zero (Block.eq_zero.mp hzero)

theorem Transaction.read_of_write_signed {tx : Transaction} {keys : KeyPair}
    {signature : Signature} {payload : Bytes} (haccepted : ∀ key ∈ tx.bare.keys, key.Accepted)
    (h : { tx.bare with signature := some ⟨signature, keys.publicKey⟩ }.write = .ok payload) :
    read payload = .ok { tx.bare with signature := some ⟨signature, keys.publicKey⟩ } := by
  have hsigned : ∀ key ∈ ({ tx.bare with signature := some ⟨signature, keys.publicKey⟩ } :
      Transaction).keys, key.Accepted :=
    List.forall_mem_cons.mpr ⟨keys.accepted_publicKey, haccepted⟩
  rw [read_of_write hsigned h, withoutZeroSignature, Option.filter_some,
    keys.isZero_eq_false signature]
  rfl

/--
Signing fails exactly when the transaction without signature and
cosignatures, as `bytes`, cannot be written.  What is signed is the hash of
the bytes of the generation hash, if there is one, and of `bytes` from the
reserved word on; it is the same before and after the signature and the
signer are put in.  The signed payload is read as the transaction with this
signature, and is valid as far as the signature is.
-/
theorem Transaction.sign_consistent (tx : Transaction) (keys : KeyPair)
    (generation : Option GenerationHash) :
    ((∃ signed, tx.sign keys generation = .ok signed) ↔ ∃ bytes, tx.bare.write = .ok bytes)
    ∧ ∀ bytes, tx.bare.write = .ok bytes →
      ∃ hash signature signed, tx.sign keys generation = .ok signed
        ∧ hash = Hash.sha3_256 (generation.elim [] Block.bytes ++ bytes.drop 100)
        ∧ signature = keys.sign hash.bytes
        ∧ 124 ≤ bytes.length
        ∧ signed.payload
          = bytes.take 4 ++ signature.bytes ++ keys.publicKey.bytes ++ bytes.drop 100
        ∧ Payload.signingHash bytes generation = .ok hash
        ∧ Payload.signingHash signed.payload generation = .ok hash
        ∧ Payload.transactionHash signed.payload generation = .ok signed.hash
        ∧ ((∀ key ∈ tx.bare.keys, key.Accepted) →
          Transaction.read signed.payload
              = .ok { tx.bare with signature := some ⟨signature, keys.publicKey⟩ }
            ∧ signed.verify generation
              = liftM (keys.publicKey.verify hash.bytes signature)) := by
  refine ⟨⟨?_, ?_⟩, ?_⟩
  · rintro ⟨signed, h⟩
    exact write_of_sign h
  · rintro ⟨bytes, h⟩
    obtain ⟨identity, hsign, -⟩ := sign_of_write keys generation h rfl
    exact ⟨_, hsign⟩
  · intro bytes h
    obtain ⟨hash, hhash⟩ : ∃ hash, hash = Hash.sha3_256 (Payload.salt generation
        ++ bytes.drop Payload.signedPosition) := ⟨_, rfl⟩
    obtain ⟨identity, hsign, hwrite, hidentity⟩ := sign_of_write keys generation h hhash.symm
    have hlength := (length_of_write h).1
    have hbare : tx.bare.trailing = [] := tx.trailing_withoutCosignatures
    have hunsigned := signingHash_of_write generation hbare h
    have hsigned := signingHash_of_write generation (by exact hbare) hwrite
    rw [(Payload.parts_withSignature _ hlength).2, ← hhash] at hsigned
    rw [← hhash] at hunsigned
    refine ⟨hash, keys.sign hash.bytes, _, hsign, Payload.salt_eq generation ▸ hhash, rfl, hlength,
      ?_, hunsigned, hsigned, hidentity, fun haccepted => ?_⟩
    · simp only [Payload.withSignature, Payload.signatureBytes, List.append_assoc]
      rfl
    · have hread := read_of_write_signed haccepted hwrite
      have hverify := @SignedTransaction.verify_eq
        ⟨identity, Payload.withSignature bytes (some ⟨keys.sign hash.bytes, keys.publicKey⟩),
          keys.publicKey, tx.kind, tx.network⟩ _ ⟨keys.sign hash.bytes, keys.publicKey⟩
        generation hash hread rfl rfl tx.kind_bare tx.cosignatures_bare hsigned hidentity
      exact ⟨hread, hverify⟩

theorem Transaction.sign_consistent_cosignedAggregate :
    ∃ bytes hash signed, cosignedAggregate.bare.write = .ok bytes
      ∧ (∀ key ∈ cosignedAggregate.bare.keys, key.Accepted)
      ∧ cosignedAggregate.sign (.generate .zero) (some (.ofNat 1)) = .ok signed
      ∧ hash = Hash.sha3_256 (1 :: List.replicate 31 0 ++ bytes.drop 100)
      ∧ signed.payload = bytes.take 4 ++ ((KeyPair.generate .zero).sign hash.bytes).bytes
        ++ (KeyPair.generate .zero).publicKey.bytes ++ bytes.drop 100
      ∧ Transaction.read signed.payload = .ok { cosignedAggregate.bare with
        signature := some ⟨(KeyPair.generate .zero).sign hash.bytes,
          (KeyPair.generate .zero).publicKey⟩ } := by
  have hok : cosignedAggregate.bare.write.toOption.isSome = true := by decide +kernel
  obtain ⟨bytes, hwrite⟩ := Option.isSome_iff_exists.mp hok
  have hwrite := eq_ok_of_toOption hwrite
  have haccepted : ∀ key ∈ cosignedAggregate.bare.keys, key.Accepted := by
    rintro _ ⟨⟩
  have hgeneration : (some (.ofNat 1) : Option GenerationHash).elim [] Block.bytes
      = 1 :: List.replicate 31 0 := by decide
  obtain ⟨hash, signature, signed, hsign, hhash, rfl, -, hpayload, -, -, -, hread⟩ :=
    (sign_consistent cosignedAggregate (.generate .zero) (some (.ofNat 1))).2 bytes hwrite
  rw [hgeneration] at hhash
  exact ⟨bytes, hash, signed, hwrite, haccepted, hsign, hhash, hpayload, (hread haccepted).1⟩

end LedgerTx
