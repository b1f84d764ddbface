import LedgerTx.Proofs.Draft.Fee
import LedgerTx.Proofs.Draft.Refusal
import LedgerTx.Proofs.Transaction.Oversized

/-!
# Secret proofs of any length

The check of a secret proof looks at its hash and not at its length, which
two bytes declare.  So a longer proof is built under a given fee and to be
embedded, but cannot be written; only a fee that is settled from the size
keeps it from being built.
-/

namespace LedgerTx

open Layout (FieldSet FieldSpec Fits Measure fieldNames)

/-! ## Writing a secret proof -/

theorem SecretProof.length_lt_of_fits {values : FieldSet} {proof : Bytes}
    (h : Fits values schema.fields) (hproof : values.get? "proof" = some (.vector proof)) :
    proof.length < 2 ^ 16 := by
  have hsize : FieldSpec.u16 "proof_size" ∈ schema.fields := .tail _ (.tail _ (.tail _ (.head _)))
  have hvector : FieldSpec.vector "proof" "proof_size" ∈ schema.fields :=
    .tail _ (.tail _ (.tail _ (.tail _ (.head _))))
  exact h.length_lt hsize hvector hproof

theorem SecretProof.writable {proof : SecretProof} (h : proof.proof.length < 2 ^ 16) :
    (Operation.secretProof proof).Writable where
  sized := h
  uncounted_le := Nat.zero_le _

theorem SecretProof.refusal?_of_long {proof : SecretProof} (h : 2 ^ 16 ≤ proof.proof.length) :
    (Operation.secretProof proof).refusal?
      = some (.layout (.range "proof_size" proof.proof.length.toUInt64)) := by
  have hlarge : Measure.TooLarge ⟨"proof_size", .u16, proof.proof.length⟩ := h
  rw [Operation.refusal?, Operation.measures, Measure.refusal?_cons, if_pos hlarge]
  rfl

theorem Transaction.write_secretProof {tx : Transaction} {proof : SecretProof}
    (hbody : tx.body = .operation (.secretProof proof)) :
    (∃ bytes, tx.write = .ok bytes) ↔ proof.proof.length < 2 ^ 16 := by
  constructor
  · rintro ⟨bytes, h⟩
    obtain ⟨values, hvalues, hfits, -⟩ := steps_of_write h
    rw [kind, hbody] at hfits
    rw [hbody] at hvalues
    cases hvalues
    exact SecretProof.length_lt_of_fits hfits rfl
  · intro h
    exact write_of_writable hbody (SecretProof.writable h)

theorem Embedded.write_secretProof {network : Network} {version : UInt8} {proof : SecretProof} :
    (∃ bytes, write ⟨network, version, .operation (.secretProof proof)⟩ = .ok bytes)
      ↔ proof.proof.length < 2 ^ 16 := by
  constructor
  · rintro ⟨bytes, h⟩
    have hhead := isHead_commonValues network version (Operation.secretProof proof).kind
    have hcarries := Carries.of_framed isHeader_embedded hhead (framed_of_write h)
    have hname : "proof" ∈ fieldNames SecretProof.schema.fields := by decide
    exact SecretProof.length_lt_of_fits hcarries.fits_body (hcarries.body "proof" hname)
  · intro h
    exact write_of_writable (SecretProof.writable h) network version

/-- A longer proof, of up to 2 ^ 24 bytes, is refused for the field that declares its length. -/
theorem Transaction.write_of_longProof {tx : Transaction} {proof : SecretProof}
    (hbody : tx.body = .operation (.secretProof proof)) (hlong : 2 ^ 16 ≤ proof.proof.length)
    (hvolume : proof.proof.length ≤ 2 ^ 24) :
    tx.write = .error (.layout (.range "proof_size" proof.proof.length.toUInt64)) := by
  refine (refusedFor_write (hbody ▸ hvolume) _).mpr ?_
  rw [hbody]
  exact SecretProof.refusal?_of_long hlong

theorem Embedded.write_of_longProof {network : Network} {version : UInt8} {proof : SecretProof}
    (hlong : 2 ^ 16 ≤ proof.proof.length) (hvolume : proof.proof.length ≤ 2 ^ 24) :
    write ⟨network, version, .operation (.secretProof proof)⟩
      = .error (.layout (.range "proof_size" proof.proof.length.toUInt64)) := by
  have hsmall : volume ⟨network, version, .operation (.secretProof proof)⟩ ≤ 2 ^ 24 := hvolume
  exact (refusedFor_write hsmall _).mpr (SecretProof.refusal?_of_long hlong)

/-! ## Building a secret proof -/

def SecretProof.opening (commitment : Hash.Commitment) (recipient : Recipient) (proof : Bytes) :
    SecretProof :=
  ⟨commitment, commitment.secret proof, recipient, proof⟩

theorem SecretProof.check_opening {commitment : Hash.Commitment} {recipient : Recipient}
    {proof : Bytes} (h : proof ≠ []) : (opening commitment recipient proof).check = .ok () :=
  check_eq_ok.mpr ⟨h, rfl⟩

def SecretProof.ofZeros (count : Nat) : SecretProof :=
  .opening .sha3 (.named ⟨0x8000000000000001⟩) (List.replicate count 0)

namespace Draft

variable {settings : Settings} {envelope : Envelope} {proof : SecretProof}

theorem body_secretProof :
    (secretProof proof).body = checked SecretProof.check .secretProof proof := rfl

theorem buildEmbedded_secretProof {embedded : Embedded} :
    (secretProof proof).buildEmbedded settings envelope = .ok embedded
      ↔ proof.check = .ok () ∧ embedded = ⟨envelope.networkIn settings,
        envelope.versionOf .secretProof, .operation (.secretProof proof)⟩ :=
  buildEmbedded_checked body_secretProof

/-- With fee and deadline given, only the check of a secret proof is left. -/
theorem build_secretProof_of_given {fee : UInt64} {deadline : Deadline} {now : Int}
    (hfee : envelope.maxFee = some fee) (hdeadline : envelope.deadline = some deadline)
    (hcheck : proof.check = .ok ()) :
    (secretProof proof).build settings envelope now = .ok ⟨envelope.networkIn settings,
      envelope.versionOf .secretProof, fee, deadline, none, .operation (.secretProof proof)⟩ :=
  build_of_body hfee hdeadline (body_secretProof.trans (checked_eq_ok.mpr ⟨hcheck, rfl⟩))

theorem body_of_build_secretProof {now : Int} {tx : Transaction}
    (h : (secretProof proof).build settings envelope now = .ok tx) :
    proof.check = .ok () ∧ tx.body = .operation (.secretProof proof) :=
  check_of_build body_secretProof h

/--
A secret proof is accepted by its secret alone: when it is not empty and
hashes to the secret it is built to be embedded, and under an envelope with
fee and deadline also as a transaction.  What is built can be written exactly
when the proof has less than 2 ^ 16 bytes; a longer one, of up to 2 ^ 24
bytes, is refused for the field of its length.  Without a given fee no longer
proof is built.
-/
theorem secretProof_written_iff (proof : SecretProof) (settings : Settings) (envelope : Envelope)
    (now : Int) :
    ((∃ embedded, (secretProof proof).buildEmbedded settings envelope = .ok embedded)
        ↔ proof.proof ≠ [] ∧ proof.commitment.secret proof.proof = proof.secret)
    ∧ (∀ fee deadline, envelope.maxFee = some fee → envelope.deadline = some deadline →
      ((∃ tx, (secretProof proof).build settings envelope now = .ok tx)
        ↔ proof.proof ≠ [] ∧ proof.commitment.secret proof.proof = proof.secret))
    ∧ (∀ embedded, (secretProof proof).buildEmbedded settings envelope = .ok embedded →
      ((∃ bytes, embedded.write = .ok bytes) ↔ proof.proof.length < 2 ^ 16)
        ∧ (2 ^ 16 ≤ proof.proof.length → proof.proof.length ≤ 2 ^ 24 → embedded.write
          = .error (.layout (.range "proof_size" proof.proof.length.toUInt64))))
    ∧ ∀ tx, (secretProof proof).build settings envelope now = .ok tx →
      ((∃ bytes, tx.write = .ok bytes) ↔ proof.proof.length < 2 ^ 16)
        ∧ (2 ^ 16 ≤ proof.proof.length → proof.proof.length ≤ 2 ^ 24 → tx.write
          = .error (.layout (.range "proof_size" proof.proof.length.toUInt64)))
        ∧ (envelope.maxFee = none → proof.proof.length < 2 ^ 16) := by
  rw [← SecretProof.check_eq_ok]
  refine ⟨⟨?_, fun hcheck => ⟨_, buildEmbedded_secretProof.mpr ⟨hcheck, rfl⟩⟩⟩, ?_, ?_, ?_⟩
  · rintro ⟨embedded, h⟩
    exact (buildEmbedded_secretProof.mp h).1
  · intro fee deadline hfee hdeadline
    refine ⟨?_, fun hcheck => ⟨_, build_secretProof_of_given hfee hdeadline hcheck⟩⟩
    rintro ⟨tx, h⟩
    exact (body_of_build_secretProof h).1
  · intro embedded h
    obtain ⟨-, rfl⟩ := buildEmbedded_secretProof.mp h
    exact ⟨Embedded.write_secretProof, Embedded.write_of_longProof⟩
  · intro tx h
    have hbody := (body_of_build_secretProof h).2
    have hwrite := Transaction.write_secretProof hbody
    refine ⟨hwrite, Transaction.write_of_longProof hbody, fun hfee => hwrite.mp ?_⟩
    obtain ⟨-, bytes, hbytes, -⟩ := fee_of_build hfee h
    exact ⟨bytes, hbytes⟩

theorem secretProof_written_iff_short :
    (∃ tx bytes, (secretProof (.ofZeros 4)).build freeSettings fixedEnvelope 0 = .ok tx
        ∧ tx.write = .ok bytes)
      ∧ ∃ embedded bytes,
        (secretProof (.ofZeros 4)).buildEmbedded freeSettings fixedEnvelope = .ok embedded
          ∧ embedded.write = .ok bytes := by
  obtain ⟨hbuilt, hgiven, hpiece, hwrite⟩ :=
    secretProof_written_iff (.ofZeros 4) freeSettings fixedEnvelope 0
  obtain ⟨tx, htx⟩ := (hgiven 100 ⟨1000⟩ rfl rfl).mpr ⟨List.cons_ne_nil _ _, rfl⟩
  obtain ⟨embedded, hembedded⟩ := hbuilt.mpr ⟨List.cons_ne_nil _ _, rfl⟩
  obtain ⟨bytes, hbytes⟩ := (hwrite tx htx).1.mpr (by decide)
  obtain ⟨piece, hpiece⟩ := (hpiece embedded hembedded).1.mpr (by decide)
  exact ⟨⟨tx, bytes, htx, hbytes⟩, embedded, piece, hembedded, hpiece⟩

theorem secretProof_built_unwritten :
    (∃ tx, (secretProof (.ofZeros 65536)).build freeSettings fixedEnvelope 0 = .ok tx
        ∧ tx.write = .error (.layout (.range "proof_size" 65536)))
      ∧ ∃ embedded,
        (secretProof (.ofZeros 65536)).buildEmbedded freeSettings fixedEnvelope = .ok embedded
          ∧ embedded.write = .error (.layout (.range "proof_size" 65536)) := by
  have hcheck : (SecretProof.ofZeros 65536).check = .ok () :=
    SecretProof.check_opening (List.cons_ne_nil _ _)
  have hlength : (SecretProof.ofZeros 65536).proof.length = 65536 := List.length_replicate
  have hword : (SecretProof.ofZeros 65536).proof.length.toUInt64 = 65536 :=
    congrArg Nat.toUInt64 hlength
  rw [← hword]
  refine ⟨⟨_, build_secretProof_of_given rfl rfl hcheck, ?_⟩,
    _, buildEmbedded_secretProof.mpr ⟨hcheck, rfl⟩, ?_⟩
  · exact Transaction.write_of_longProof rfl (by omega) (by omega)
  · exact Embedded.write_of_longProof (by omega) (by omega)

end Draft

end LedgerTx
