import LedgerTx.Proofs.Transaction.Signed

/-!
# Valid signed transactions

A signed transaction is valid exactly when its payload reads back signed and
every signature in it is valid.  Validity ties the recorded signer, kind and
hash to the payload; the recorded network has no part in it.
-/

namespace LedgerTx

/-! ## Steps of the check -/

instance : Reported PayloadError SignedError where
  exists_report x := ⟨.payload, by cases x <;> rfl⟩

instance : Reported KeyError SignedError where
  exists_report x := ⟨.key, by cases x <;> rfl⟩

namespace SignedTransaction

theorem verifyCosignatures_eq_ok {hash : TransactionHash} {list : List Cosignature} :
    verifyCosignatures hash list = .ok ()
      ↔ ∀ cosignature ∈ list,
        cosignature.signer.verify hash.bytes cosignature.signature = .ok () := by
  induction list with
  | nil =>
      constructor
      · intro _ cosignature hmem
        cases hmem
      · intro _
        rfl
  | cons first rest ih =>
      rw [verifyCosignatures, bind_eq_ok, List.forall_mem_cons]
      constructor
      · rintro ⟨⟨⟩, hfirst, hrest⟩
        exact ⟨lift_eq_ok.mp hfirst, ih.mp hrest⟩
      · rintro ⟨hfirst, hrest⟩
        exact ⟨(), lift_eq_ok.mpr hfirst, ih.mpr hrest⟩

theorem verify_eq_ok {signed : SignedTransaction} {generation : Option GenerationHash} :
    signed.verify generation = .ok ()
      ↔ ∃ tx info hash, Transaction.read signed.payload = .ok tx ∧ tx.signature = some info
        ∧ (info.signer = signed.signer ∧ tx.kind = signed.kind)
        ∧ Payload.signingHash signed.payload generation = .ok hash
        ∧ info.signer.verify hash.bytes info.signature = .ok ()
        ∧ Payload.transactionHash signed.payload generation = .ok signed.hash
        ∧ ∀ cosignature ∈ tx.body.cosignatures,
          cosignature.signer.verify signed.hash.bytes cosignature.signature = .ok () := by
  rw [verify, bind_eq_ok]
  constructor
  · rintro ⟨tx, hread, h⟩
    cases hinfo : tx.signature with
    | none =>
        rw [hinfo] at h
        cases h
    | some info =>
        simp only [hinfo] at h
        split at h
        · cases h
        · rename_i hrecorded
          obtain ⟨hash, hhash, h⟩ := bind_eq_ok.mp h
          obtain ⟨⟨⟩, hvalid, h⟩ := bind_eq_ok.mp h
          obtain ⟨identity, hidentity, h⟩ := bind_eq_ok.mp h
          split at h
          · cases h
          · rename_i hsame
            obtain rfl := not_not.mp hsame
            rw [not_or, not_not, not_not] at hrecorded
            exact ⟨tx, info, hash, lift_eq_ok.mp hread, hinfo, hrecorded,
              lift_eq_ok.mp hhash, lift_eq_ok.mp hvalid,
              lift_eq_ok.mp hidentity, verifyCosignatures_eq_ok.mp h⟩
  · rintro ⟨tx, info, hash, hread, hinfo, ⟨hsigner, hkind⟩, hhash, hvalid, hidentity, hcosigned⟩
    refine ⟨tx, lift_eq_ok.mpr hread, ?_⟩
    simp only [hinfo]
    rw [if_neg (by simp [hsigner, hkind])]
    refine bind_eq_ok.mpr ⟨hash, lift_eq_ok.mpr hhash, bind_eq_ok.mpr
      ⟨(), lift_eq_ok.mpr hvalid, bind_eq_ok.mpr
        ⟨signed.hash, lift_eq_ok.mpr hidentity, ?_⟩⟩⟩
    rw [if_neg (not_not.mpr rfl)]
    exact verifyCosignatures_eq_ok.mpr hcosigned

end SignedTransaction

/-! ## What is signed is valid -/

theorem Transaction.verify_of_sign {tx : Transaction} {keys : KeyPair}
    {generation : Option GenerationHash} {bytes : Bytes} (h : tx.bare.write = .ok bytes)
    (haccepted : ∀ key ∈ tx.bare.keys, key.Accepted) :
    ∃ signed signature, tx.sign keys generation = .ok signed
      ∧ read signed.payload
        = .ok { tx.bare with signature := some ⟨signature, keys.publicKey⟩ }
      ∧ signed.verify generation = .ok () := by
  obtain ⟨hash, hhash⟩ : ∃ hash, hash = Hash.sha3_256 (Payload.salt generation
      ++ bytes.drop Payload.signedPosition) := ⟨_, rfl⟩
  obtain ⟨identity, hsign, hwrite, hidentity⟩ := sign_of_write keys generation h hhash.symm
  have hbare : tx.bare.trailing = [] := tx.trailing_withoutCosignatures
  have hsigned := signingHash_of_write generation (by exact hbare) hwrite
  rw [(Payload.parts_withSignature _ (length_of_write h).1).2, ← hhash] at hsigned
  have hread := read_of_write_signed haccepted hwrite
  refine ⟨_, keys.sign hash.bytes, hsign, hread, ?_⟩
  refine SignedTransaction.verify_eq_ok.mpr ⟨_, _, hash, hread, rfl, ⟨rfl, tx.kind_bare⟩, hsigned,
    keys.verify_sign hash.bytes, hidentity, ?_⟩
  intro cosignature hmem
  rw [show ({ tx.bare with signature := some ⟨keys.sign hash.bytes, keys.publicKey⟩ } :
    Transaction).body.cosignatures = [] from tx.cosignatures_bare] at hmem
  cases hmem

namespace SignedTransaction

theorem exists_valid : ∃ signed tx, verify signed none = .ok ()
    ∧ Transaction.read signed.payload = .ok tx ∧ tx.network = .testNet := by
  have hok : Transaction.cosignedAggregate.bare.write.toOption.isSome = true := by decide +kernel
  obtain ⟨bytes, hwrite⟩ := Option.isSome_iff_exists.mp hok
  have haccepted : ∀ key ∈ Transaction.cosignedAggregate.bare.keys, key.Accepted := by
    rintro _ ⟨⟩
  obtain ⟨signed, signature, -, hread, hvalid⟩ := @Transaction.verify_of_sign
    Transaction.cosignedAggregate (.generate .zero) none bytes (eq_ok_of_toOption hwrite) haccepted
  exact ⟨signed, _, hvalid, hread, rfl⟩

/-! ## What validity says of the record -/

/-- Another network can be recorded without any effect on the check. -/
theorem verify_withNetwork (signed : SignedTransaction) (network : Network)
    (generation : Option GenerationHash) :
    { signed with network := network }.verify generation = signed.verify generation := rfl

/--
The payload of a valid signed transaction reads back signed.  Its signer,
its kind and its hash are the recorded ones; any network may be recorded.
-/
theorem verify_ties_record {signed : SignedTransaction} {generation : Option GenerationHash}
    (h : signed.verify generation = .ok ()) :
    ∃ tx info, Transaction.read signed.payload = .ok tx ∧ tx.signature = some info
      ∧ signed.signer = info.signer ∧ signed.kind = tx.kind
      ∧ Payload.transactionHash signed.payload generation = .ok signed.hash
      ∧ ∀ network, { signed with network := network }.verify generation = .ok () := by
  obtain ⟨tx, info, hash, hread, hinfo, ⟨hsigner, hkind⟩, -, -, hidentity, -⟩ := verify_eq_ok.mp h
  refine ⟨tx, info, hread, hinfo, hsigner.symm, hkind.symm, hidentity, ?_⟩
  intro network
  rw [verify_withNetwork]
  exact h

theorem verify_ties_record_testNet :
    ∃ signed tx info, verify signed none = .ok () ∧ Transaction.read signed.payload = .ok tx
      ∧ tx.signature = some info ∧ signed.signer = info.signer ∧ signed.kind = tx.kind
      ∧ Payload.transactionHash signed.payload none = .ok signed.hash := by
  obtain ⟨signed, -, hvalid, -, -⟩ := exists_valid
  obtain ⟨tx, info, hread, hinfo, hsigner, hkind, hidentity, -⟩ := verify_ties_record hvalid
  exact ⟨signed, tx, info, hvalid, hread, hinfo, hsigner, hkind, hidentity⟩

theorem valid_with_foreign_network :
    ∃ signed tx, verify signed none = .ok () ∧ Transaction.read signed.payload = .ok tx
      ∧ signed.network = .mainNet ∧ tx.network = .testNet := by
  obtain ⟨signed, tx, hvalid, hread, hnetwork⟩ := exists_valid
  refine ⟨{ signed with network := .mainNet }, tx, ?_, hread, rfl, hnetwork⟩
  rw [verify_withNetwork]
  exact hvalid

end SignedTransaction

end LedgerTx
