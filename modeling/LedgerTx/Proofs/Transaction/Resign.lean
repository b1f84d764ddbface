import LedgerTx.Proofs.Transaction.Assemble

/-!
# Signing again

What is signed is the bare transaction: neither an old signature nor
cosignatures over it have any part in the result, be it a signed transaction
or a refusal.  A signed payload is read as a transaction that is bare the
same, and so is an aggregate with cosignatures appended, so that signing
what was read gives the first signed transaction back.
-/

namespace LedgerTx

theorem Payload.eq_of_withSize_eq_error {payload : Bytes} {e : PayloadError}
    (h : withSize payload = .error e) : e = .layout .tooLarge := by
  unfold withSize at h
  split at h
  · cases h
  · exact (Except.error.inj h).symm

namespace Transaction

variable {tx tx' : Transaction} {keys : KeyPair} {generation : Option GenerationHash}

/-! ## Refusals -/

theorem write_withSignature_eq_error {e : PayloadError} (info : Option SignatureInfo)
    (h : tx.write = .error e) : { tx with signature := info }.write = .error e := by
  have hhead' : IsHead transactionHeader tx.kind ({ tx with signature := info }.headValues) :=
    ({ tx with signature := info } : Transaction).isHead_headValues
  rcases bind_eq_error.mp h with hbody | ⟨values, hvalues, h⟩
  · exact bind_eq_error.mpr (.inl hbody)
  have hflat := tx.isHead_headValues.flat_sameRefusal isHeader_transaction hhead' values
  rcases bind_eq_error.mp h with hrefused | ⟨flat, hok, h⟩
  · exact bind_eq_error.mpr (.inr ⟨values, hvalues, bind_eq_error.mpr
      (.inl ((hflat e).mp hrefused))⟩)
  -- only the size is left to refuse either payload, and what is written for one is for the other
  obtain ⟨flat', hok'⟩ := hflat.exists_ok hok
  cases hwrite : { tx with signature := info }.write with
  | ok bytes =>
      have hback : tx.write = .ok _ :=
        @write_withSignature { tx with signature := info } bytes tx.signature hwrite
      have hrefused : tx.write = .error e := bind_eq_error.mpr (.inr ⟨values, hvalues,
        bind_eq_error.mpr (.inr ⟨flat, hok, h⟩)⟩)
      cases hback.symm.trans hrefused
  | error e' =>
      rcases bind_eq_error.mp hwrite with hbody | ⟨values', hvalues', h'⟩
      · cases hvalues.symm.trans hbody
      cases hvalues.symm.trans hvalues'
      rcases bind_eq_error.mp h' with hrefused | ⟨flat'', -, h'⟩
      · cases hok'.symm.trans hrefused
      · rw [Payload.eq_of_withSize_eq_error h, Payload.eq_of_withSize_eq_error h']

theorem sign_eq_error {e : PayloadError} (h : tx.bare.write = .error e) :
    tx.sign keys generation = .error e := by
  have hwrite : tx.withoutCosignatures.write = .error e :=
    write_withSignature_eq_error tx.signature h
  exact bind_eq_error.mpr (.inl hwrite)

/-! ## What is signed -/

/-- Transactions that are bare the same are signed the same. -/
theorem sign_congr (h : tx.bare = tx'.bare) (keys : KeyPair)
    (generation : Option GenerationHash) : tx.sign keys generation = tx'.sign keys generation := by
  have hkind : tx.kind = tx'.kind := by rw [← kind_bare, h, kind_bare]
  have hnetwork : tx.network = tx'.network :=
    show tx.bare.network = tx'.bare.network by rw [h]
  cases hwrite : tx.bare.write with
  | error e => rw [sign_eq_error hwrite, sign_eq_error (h ▸ hwrite)]
  | ok bytes =>
      obtain ⟨identity, hsign, -, hidentity⟩ := sign_of_write keys generation hwrite rfl
      obtain ⟨identity', hsign', -, hidentity'⟩ := sign_of_write keys generation (h ▸ hwrite) rfl
      cases hidentity.symm.trans hidentity'
      rw [hsign, hsign', hkind, hnetwork]

theorem kind_of_sign {signed : SignedTransaction} (h : tx.sign keys generation = .ok signed) :
    signed.kind = tx.kind := by
  obtain ⟨bytes, hwrite⟩ := write_of_sign h
  obtain ⟨identity, hsign, -⟩ := sign_of_write keys generation hwrite rfl
  cases hsign.symm.trans h
  rfl

theorem read_of_sign {signed : SignedTransaction} (h : tx.sign keys generation = .ok signed)
    (haccepted : ∀ key ∈ tx.bare.keys, key.Accepted) :
    ∃ signature, read signed.payload
      = .ok { tx.bare with signature := some ⟨signature, keys.publicKey⟩ } := by
  obtain ⟨bytes, hwrite⟩ := write_of_sign h
  obtain ⟨signed', signature, hsign, hread, -⟩ := verify_of_sign hwrite haccepted
  cases hsign.symm.trans h
  exact ⟨signature, hread⟩

/-! ## Bare transactions -/

theorem bare_withSignature (tx : Transaction) (info : Option SignatureInfo) :
    { tx.bare with signature := info }.bare = tx.bare := by
  unfold bare withoutCosignatures Body.withoutCosignatures
  cases tx.body <;> rfl

theorem bare_cosigned (tx : Transaction) (more : List Cosignature) :
    (tx.cosigned more).bare = tx.bare := by
  unfold bare withoutCosignatures Body.withoutCosignatures cosigned Body.cosigned
  cases tx.body <;> rfl

end Transaction

namespace SignedTransaction

open DetachedCosignature (rows)

theorem grown_of_assemble {signed assembled : SignedTransaction} {list : List DetachedCosignature}
    (h : signed.assemble list = .ok assembled) : signed.kind.isAggregate = true
      ∧ Payload.withSize (signed.payload ++ rows list) = .ok assembled.payload := by
  cases hkind : signed.kind.isAggregate with
  | false => cases (assemble_of_not_aggregate hkind).symm.trans h
  | true =>
      cases hfind : list.find? (·.parent ≠ signed.hash) with
      | some other => cases (assemble_eq_error hkind hfind).symm.trans h
      | none =>
          have hover : ∀ cosignature ∈ list, cosignature.parent = signed.hash := by
            simpa using hfind
          rw [assemble, hkind, appendAll_eq_ok _ hover] at h
          replace h : (if (signed.payload ++ rows list).length < 4
            then .error SignedError.noSizeWord else _) = Except.ok assembled := h
          obtain ⟨-, h⟩ := refuse_eq_ok.mp h
          obtain ⟨grown, hgrown, h⟩ := bind_eq_ok.mp h
          cases h
          exact ⟨rfl, lift_eq_ok.mp hgrown⟩

end SignedTransaction

/--
Signing depends on the bare transaction only, signature and cosignatures
apart.  What was signed is read back, before and after cosignatures are
appended, when the keys in it are accepted; and the same keys sign what was
read to the same result.
-/
theorem Transaction.sign_again (keys : KeyPair) (generation : Option GenerationHash) :
    (∀ tx tx' : Transaction, tx.bare = tx'.bare →
      tx.sign keys generation = tx'.sign keys generation)
    ∧ ∀ (tx : Transaction) (signed : SignedTransaction), tx.sign keys generation = .ok signed →
      (∀ key ∈ tx.bare.keys, key.Accepted) →
      (∃ found, read signed.payload = .ok found ∧ found.sign keys generation = .ok signed)
      ∧ ∀ (list : List DetachedCosignature) (assembled : SignedTransaction),
        signed.assemble list = .ok assembled →
        (∀ cosignature ∈ list, cosignature.signer.Accepted) →
        ∃ found, read assembled.payload = .ok found
          ∧ found.sign keys generation = .ok signed := by
  refine ⟨fun tx tx' h => sign_congr h keys generation, fun tx signed h haccepted => ?_⟩
  obtain ⟨signature, hread⟩ := read_of_sign h haccepted
  have hbare := tx.bare_withSignature (some ⟨signature, keys.publicKey⟩)
  refine ⟨⟨_, hread, (sign_congr hbare keys generation).trans h⟩, ?_⟩
  intro list assembled hassemble hsigners
  obtain ⟨haggregate, hgrown⟩ := SignedTransaction.grown_of_assemble hassemble
  rw [kind_of_sign h] at haggregate
  have hcosigned := (read_grown hread (tx.kind_bare ▸ haggregate) hgrown).mpr
    ⟨List.forall_mem_map.mpr hsigners, rfl⟩
  refine ⟨_, hcosigned, (sign_congr ?_ keys generation).trans h⟩
  rw [bare_cosigned, hbare]

theorem Transaction.sign_again_cosignedAggregate :
    ∃ keys : KeyPair, ∃ signed assembled found, cosignedAggregate.sign keys none = .ok signed
      ∧ cosignedAggregate.bare.sign keys none = .ok signed
      ∧ signed.assemble [keys.cosign signed.hash] = .ok assembled
      ∧ read assembled.payload = .ok found ∧ found.sign keys none = .ok signed := by
  have hwritten : cosignedAggregate.bare.write.toOption.map List.length = some 148 := by
    decide +kernel
  obtain ⟨bytes, hbytes, hlength⟩ := Option.map_eq_some_iff.mp hwritten
  let keys : KeyPair := .generate .zero
  obtain ⟨signed, hsign, hkind, hpayload⟩ : ∃ signed, cosignedAggregate.sign keys none = .ok signed
      ∧ signed.kind.isAggregate = true ∧ signed.payload.length = 148 := by
    obtain ⟨identity, hsign, -⟩ := sign_of_write keys none (eq_ok_of_toOption hbytes) rfl
    exact ⟨_, hsign, rfl, (Payload.length_withSignature _ (by rw [hlength]; decide)).trans hlength⟩
  obtain ⟨hsame, hagain⟩ := sign_again keys none
  have hbare := hsame cosignedAggregate cosignedAggregate.bare rfl
  have haccepted : ∀ key ∈ cosignedAggregate.bare.keys, key.Accepted := by
    rintro _ ⟨⟩
  let list : List DetachedCosignature := [keys.cosign signed.hash]
  have hgrown : Payload.withSize (signed.payload ++ DetachedCosignature.rows list) = .ok _ :=
    if_pos (by
      rw [List.length_append, DetachedCosignature.length_rows, hpayload]
      exact (by decide : 148 + 96 * 1 < 2 ^ 32))
  have hover : ∀ cosignature ∈ list, cosignature.parent = signed.hash := by
    simp [list, KeyPair.cosign]
  have hassemble := SignedTransaction.assemble_eq hkind hover (by rw [hpayload]; decide)
  rw [hgrown] at hassemble
  have hsigners : ∀ cosignature ∈ list, cosignature.signer.Accepted := by
    simpa [list, KeyPair.cosign] using keys.accepted_publicKey
  obtain ⟨found, hread, hfound⟩ := (hagain _ _ hsign haccepted).2 list _ hassemble hsigners
  exact ⟨keys, signed, _, found, hsign, hbare ▸ hsign, hassemble, hread, hfound⟩

end LedgerTx
