import LedgerTx.Key.Signature
import LedgerTx.Proofs.Curve.Compressed

/-!
# Signatures verify

The public key of a seed is a multiple of the base point, so it is accepted.
A signature made with the seed passes the strict check: the response is
reduced modulo the order of the base point, which changes no multiple of it.
-/

namespace LedgerTx

open Curve

/-! ## Blocks -/

namespace Block

theorem front_append {left right : Nat} (a : Block left) (b : Block right)
    (fits : left ≤ left + right) : front left (a.append b) fits = a := by
  apply ext
  simp [front, append, a.length_bytes]

theorem bytes_back_append {left right : Nat} (a : Block left) (b : Block right) :
    (back left (a.append b)).bytes = b.bytes := by
  simp [back, append, a.length_bytes]

end Block

/-! ## Scalars -/

namespace Curve.Scalar

theorem order_lt : order < 2 ^ 256 := by decide

theorem mod_order_lt (n : Nat) : n % order < 2 ^ 256 :=
  Nat.lt_trans (Nat.mod_lt n (by decide)) order_lt

theorem ofBytes_lt (bytes : Bytes) : ofBytes bytes < 2 ^ 256 :=
  mod_order_lt _

theorem ofCanonical?_ofNat (n : Nat) : ofCanonical? (.ofNat (n % order)) = some (n % order) := by
  have hlt : n % order < order := Nat.mod_lt n (by decide)
  have hfits : n % order < 256 ^ 32 := Nat.lt_trans hlt (by decide)
  rw [ofCanonical?, Block.toNat_ofNat hfits, if_pos hlt]

/-- A response acts on the base point as the unreduced sum. -/
theorem addMul_nsmul_base (r k a : Nat) :
    addMul r k a • Affine.base = r • Affine.base + k • a • Affine.base := by
  rw [addMul, Affine.mod_order_nsmul_base, add_nsmul, mul_comm, mul_nsmul]

end Curve.Scalar

/-! ## Public keys -/

namespace PrivateKey

theorem multiplier_lt (key : PrivateKey) : key.multiplier < 2 ^ 256 := by
  unfold multiplier
  dsimp only
  omega

theorem block_publicKey (key : PrivateKey) :
    key.publicKey.block = (key.multiplier • Affine.base).encode :=
  (Point.mulBase_is key.multiplier_lt).encode_eq

end PrivateKey

namespace KeyPair

theorem block_publicKey (keys : KeyPair) :
    keys.publicKey.block = (keys.privateKey.multiplier • Affine.base).encode := by
  rw [keys.publicKey_eq, PrivateKey.block_publicKey]

theorem point?_publicKey (keys : KeyPair) : ∃ point, keys.publicKey.point? = some point
    ∧ point.Is (keys.privateKey.multiplier • Affine.base) := by
  rw [PublicKey.point?, block_publicKey]
  exact Point.decode?_encode _

theorem accepted_publicKey (keys : KeyPair) : keys.publicKey.Accepted := by
  obtain ⟨point, hpoint, -⟩ := keys.point?_publicKey
  rw [PublicKey.Accepted, hpoint]
  rfl

/-- No public key consists of zero bytes: these encode a point of order four. -/
theorem publicKey_ne_zero (keys : KeyPair) : keys.publicKey.block ≠ .zero := by
  intro h
  have hy := Affine.toNat_encode_mod (keys.privateKey.multiplier • Affine.base)
  have hzero : (Block.zero : Block 32).toNat % 2 ^ 255 = 0 := by decide
  rw [← block_publicKey, h, hzero] at hy
  exact Affine.y_nsmul_base_ne_zero _ ((ZMod.val_eq_zero _).mp hy.symm)

end KeyPair

theorem PublicKey.ofBlock_of_accepted {key : PublicKey} (h : key.Accepted) :
    ofBlock key.block = .ok key :=
  if_pos h

theorem PublicKey.accepted_of_verify {key : PublicKey} {message : Bytes} {signature : Signature}
    (h : key.verify message signature = .ok ()) : key.Accepted := by
  rw [Accepted, Option.isSome_iff_ne_none]
  intro hnone
  rw [verify, hnone] at h
  cases h

/-! ## Signatures -/

namespace KeyPair

def nonce (keys : KeyPair) (message : Bytes) : Nat :=
  Scalar.ofBytes (Hash.sha3_512 (keys.privateKey.nonceSeed.bytes ++ message)).bytes

def challenge (keys : KeyPair) (message : Bytes) : Nat :=
  Signature.challenge (keys.nonce message • Affine.base).encode keys.publicKey message

theorem encode_nonce (keys : KeyPair) (message : Bytes) :
    (Point.mulBase (keys.nonce message)).encode = (keys.nonce message • Affine.base).encode :=
  (Point.mulBase_is (Scalar.ofBytes_lt _)).encode_eq

theorem block_sign (keys : KeyPair) (message : Bytes) :
    (keys.sign message).block = (keys.nonce message • Affine.base).encode.append
      (Block.ofNat (Scalar.addMul (keys.nonce message) (keys.challenge message)
        keys.privateKey.multiplier) : Block 32) := by
  rw [challenge, ← encode_nonce]
  rfl

theorem sign_r (keys : KeyPair) (message : Bytes) :
    (keys.sign message).r = (keys.nonce message • Affine.base).encode := by
  rw [Signature.r, block_sign]
  exact Block.front_append _ _ _

theorem sign_s (keys : KeyPair) (message : Bytes) :
    (keys.sign message).s = Block.ofNat (Scalar.addMul (keys.nonce message)
      (keys.challenge message) keys.privateKey.multiplier) := by
  apply Block.ext
  rw [Signature.s, block_sign]
  exact Block.bytes_back_append _ _

theorem holds_sign (keys : KeyPair) (message : Bytes) {point : Point}
    (hpoint : point.Is (keys.privateKey.multiplier • Affine.base)) :
    PublicKey.holds point keys.publicKey message (keys.sign message) = true := by
  obtain ⟨a, ha⟩ : ∃ a, a = keys.privateKey.multiplier := ⟨_, rfl⟩
  obtain ⟨r, hr⟩ : ∃ r, r = keys.nonce message := ⟨_, rfl⟩
  obtain ⟨k, hk⟩ : ∃ k, k = keys.challenge message := ⟨_, rfl⟩
  obtain ⟨decoded, hdecoded, -⟩ := Point.decode?_encode (r • Affine.base)
  have hkey : (point.mul k).Is (k • a • Affine.base) := by
    rw [ha]
    exact hpoint.mul (hk ▸ Scalar.ofBytes_lt _)
  have hresponse := (Point.mulBase_is (Scalar.mod_order_lt (r + k * a))).sub hkey
  rw [← Scalar.addMul, Scalar.addMul_nsmul_base, add_sub_cancel_right] at hresponse
  have hchallenge : Signature.challenge (r • Affine.base).encode keys.publicKey message = k := by
    rw [hr, hk]
    rfl
  unfold PublicKey.holds
  rw [sign_s, sign_r, ← ha, ← hr, ← hk, Scalar.addMul, Scalar.ofCanonical?_ofNat]
  simp only [hchallenge, hdecoded, Option.isSome_some, Bool.true_and, beq_iff_eq]
  exact hresponse.encode_eq

theorem verify_sign (keys : KeyPair) (message : Bytes) :
    keys.publicKey.verify message (keys.sign message) = .ok () := by
  obtain ⟨point, hpoint, his⟩ := keys.point?_publicKey
  rw [PublicKey.verify, hpoint]
  exact if_pos (keys.holds_sign message his)

/--
Every seed gives an accepted public key, and every signature made with the
seed is valid in all three ways of checking it.
-/
theorem sign_valid (seed : Block 32) (message : Bytes) :
    PublicKey.ofBlock (ofPrivateKey ⟨seed⟩).publicKey.block
        = .ok (ofPrivateKey ⟨seed⟩).publicKey
      ∧ (ofPrivateKey ⟨seed⟩).publicKey.verify message ((ofPrivateKey ⟨seed⟩).sign message)
        = .ok ()
      ∧ (ofPrivateKey ⟨seed⟩).publicKey.verifies message ((ofPrivateKey ⟨seed⟩).sign message)
        = true
      ∧ Signature.verifyRaw (ofPrivateKey ⟨seed⟩).publicKey.block message
        ((ofPrivateKey ⟨seed⟩).sign message) = .ok () := by
  obtain ⟨keys, hkeys⟩ : ∃ keys, keys = ofPrivateKey ⟨seed⟩ := ⟨_, rfl⟩
  rw [← hkeys]
  have haccepted := PublicKey.ofBlock_of_accepted keys.accepted_publicKey
  have hverify := keys.verify_sign message
  refine ⟨haccepted, hverify, ?_, ?_⟩
  · rw [PublicKey.verifies, hverify]
    rfl
  · rw [Signature.verifyRaw, haccepted]
    exact hverify

end KeyPair

end LedgerTx
