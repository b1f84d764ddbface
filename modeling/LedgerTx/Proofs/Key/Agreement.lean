import LedgerTx.Message
import LedgerTx.Proofs.Cipher.Sealed
import LedgerTx.Proofs.Key.Signature

/-!
# Letters are read from both ends

Each of two accounts multiplies the other's point by its own multiplier.
Both products are the same multiple of the base point, so the agreed key does
not depend on whose side it is computed on, and the author of a letter can
read it as well as its recipient.  Under any key a byte string opens only to
the plaintext that it seals.
-/

namespace LedgerTx

open Curve

namespace KeyPair

/-! ## The agreed key -/

/-- The key agreed on with the owner of a key pair, by the product of the two multipliers. -/
theorem sharedKey_publicKey (own peer : KeyPair) (salt : Block saltSize) :
    own.sharedKey peer.publicKey salt = .ok (Hash.sha3_256
      ((((own.privateKey.multiplier * peer.privateKey.multiplier) • Affine.base).encode.xor
        salt).bytes)) := by
  obtain ⟨point, hpoint, his⟩ := peer.point?_publicKey
  have hproduct := his.mul own.privateKey.multiplier_lt
  rw [← mul_nsmul'] at hproduct
  rw [sharedKey, hpoint, ← hproduct.encode_eq]

theorem sharedKey_comm (own peer : KeyPair) (salt : Block saltSize) :
    own.sharedKey peer.publicKey salt = peer.sharedKey own.publicKey salt := by
  rw [sharedKey_publicKey, sharedKey_publicKey, Nat.mul_comm]

/-! ## Letters -/

section Letters

variable {writer reader : KeyPair} {addressee author : PublicKey} {salt : Block saltSize}
  {key : Block 32} (vector : Block Cipher.blockSize) (plain : Bytes)

theorem sealLetter_of_sharedKey (hkey : writer.sharedKey addressee salt = .ok key) :
    writer.sealLetter addressee salt vector plain
      = .ok (salt.bytes ++ Cipher.sealWith key vector plain) := by
  rw [sealLetter, hkey]
  rfl

theorem openLetter_of_sharedKey (hkey : reader.sharedKey author salt = .ok key) :
    reader.openLetter author (salt.bytes ++ Cipher.sealWith key vector plain) = .ok plain := by
  have hfront : (salt.bytes ++ Cipher.sealWith key vector plain).take saltSize = salt.bytes :=
    List.take_left' salt.length_bytes
  have hback : (salt.bytes ++ Cipher.sealWith key vector plain).drop saltSize
      = Cipher.sealWith key vector plain :=
    List.drop_left' salt.length_bytes
  have hlong : ¬(salt.bytes ++ Cipher.sealWith key vector plain).length < 64 := by
    have hpad := Cipher.length_pad plain
    rw [List.length_append, salt.length_bytes, saltSize, Cipher.length_sealWith]
    omega
  rw [openLetter, if_neg hlong, hfront, hback, Block.ofBytes?_bytes]
  simp only [bind, Except.bind, hkey, unsealWith, Cipher.unseal?_sealWith]

end Letters

/-! ## Sealed byte strings -/

theorem unsealWith_eq_ok {key : Block 32} {sealed plain : Bytes} :
    unsealWith key sealed = .ok plain ↔ Cipher.unseal? key sealed = some plain := by
  unfold unsealWith
  cases Cipher.unseal? key sealed <;> simp

theorem unsealWith_eq_error {key : Block 32} {sealed : Bytes} {e : KeyError} :
    unsealWith key sealed = .error e ↔ e = .decryption ∧ Cipher.unseal? key sealed = none := by
  unfold unsealWith
  cases Cipher.unseal? key sealed <;> simp [eq_comm]

/--
A byte string opens under a key exactly to the plaintext that it seals under
this key and its own first sixteen bytes; every other one is refused with the
same error.  What is sealed has a whole number of blocks, and tells its
vector and its plaintext.
-/
theorem unsealWith_iff_sealWith (key : Block 32) (data : Bytes) :
    (∀ plain, unsealWith key data = .ok plain
      ↔ 16 ≤ data.length ∧ ∃ vector : Block 16, vector.bytes = data.take 16
        ∧ data = Cipher.sealWith key vector plain)
    ∧ (∀ e, unsealWith key data = .error e
      ↔ e = .decryption ∧ ∀ vector plain, data ≠ Cipher.sealWith key vector plain)
    ∧ ∀ vector plain, data = Cipher.sealWith key vector plain →
      data.length = 16 + 16 * (plain.length / 16 + 1)
        ∧ ∀ vector' plain', data = Cipher.sealWith key vector' plain' →
          vector' = vector ∧ plain' = plain := by
  refine ⟨fun plain => ?_, fun e => ?_, ?_⟩
  · rw [unsealWith_eq_ok, Cipher.unseal?_eq_some]
    constructor
    · rintro ⟨vector, hvector, hdata⟩
      refine ⟨?_, vector, hvector, hdata⟩
      rw [hdata, Cipher.length_sealWith]
      exact Nat.le_add_right _ _
    · rintro ⟨-, hsealed⟩
      exact hsealed
  · rw [unsealWith_eq_error, Option.eq_none_iff_forall_ne_some]
    refine and_congr_right fun _ => ⟨fun h vector plain hdata => ?_, fun h plain hplain => ?_⟩
    · exact h plain (hdata ▸ Cipher.unseal?_sealWith key vector plain)
    · obtain ⟨vector, -, hdata⟩ := Cipher.unseal?_eq_some.mp hplain
      exact h vector plain hdata
  · rintro vector plain rfl
    refine ⟨Cipher.length_sealWith_eq key vector plain, fun vector' plain' hsame => ⟨?_, ?_⟩⟩
    · apply Block.ext
      rw [← Cipher.take_sealWith key vector' plain', ← hsame, Cipher.take_sealWith]
    · have hopened := Cipher.unseal?_sealWith key vector' plain'
      rw [← hsame, Cipher.unseal?_sealWith] at hopened
      exact (Option.some_inj.mp hopened).symm

theorem unsealWith_iff_sealWith_short :
    unsealWith .zero (Cipher.sealWith .zero .zero [1, 2, 3]) = .ok [1, 2, 3]
      ∧ (Cipher.sealWith .zero .zero [1, 2, 3]).length = 32
      ∧ unsealWith .zero (List.replicate 16 0) = .error .decryption := by
  obtain ⟨hok, -, hsealed⟩ :=
    unsealWith_iff_sealWith .zero (Cipher.sealWith .zero .zero [1, 2, 3])
  obtain ⟨hlength, -⟩ := hsealed .zero [1, 2, 3] rfl
  refine ⟨(hok [1, 2, 3]).mpr ⟨?_, .zero, ?_, rfl⟩, hlength, ?_⟩
  · rw [hlength]
    decide
  · exact (Cipher.take_sealWith _ _ _).symm
  · refine ((unsealWith_iff_sealWith .zero (List.replicate 16 0)).2.1 .decryption).mpr
      ⟨rfl, fun vector plain h => ?_⟩
    have hlong := congrArg List.length h
    rw [Cipher.length_sealWith_eq, List.length_replicate] at hlong
    omega

end KeyPair

/-! ## Messages -/

namespace Message

theorem read_secure {reader : KeyPair} {author : PublicKey} {letter : Bytes} {text : String}
    (h : reader.openLetter author letter = .ok (Utf8.encode text)) :
    (secure letter).read reader author = .ok text := by
  rw [read, h]
  simp only [bind, Except.bind, Utf8.decode?_encode]

/--
Two accounts agree on the same key from either side: the salted hash of the
multiple of the base point by both multipliers.  A message that one seals for
the other is the salt and the text sealed under this key, and is read by
both, whatever the text and the randomness.
-/
theorem sealed_read_by_both (writer peer : KeyPair) (salt : Block 32) :
    ∃ key, writer.sharedKey peer.publicKey salt = .ok key
      ∧ peer.sharedKey writer.publicKey salt = .ok key
      ∧ key = Hash.sha3_256 ((((writer.privateKey.multiplier * peer.privateKey.multiplier)
        • Affine.base).encode.xor salt).bytes)
      ∧ ∀ vector text, ∃ message,
        message = .secure (salt.bytes ++ Cipher.sealWith key vector (Utf8.encode text))
        ∧ Message.sealed writer peer.publicKey salt vector text = .ok message
        ∧ message.read peer writer.publicKey = .ok text
        ∧ message.read writer peer.publicKey = .ok text := by
  obtain ⟨key, hagreed⟩ : ∃ key, key = Hash.sha3_256 ((((writer.privateKey.multiplier
      * peer.privateKey.multiplier) • Affine.base).encode.xor salt).bytes) := ⟨_, rfl⟩
  have hkey : writer.sharedKey peer.publicKey salt = .ok key := by
    rw [KeyPair.sharedKey_publicKey, hagreed]
  have hpeer : peer.sharedKey writer.publicKey salt = .ok key := by
    rw [← KeyPair.sharedKey_comm, hkey]
  refine ⟨key, hkey, hpeer, hagreed, fun vector text => ⟨_, rfl, ?_, ?_, ?_⟩⟩
  · rw [Message.sealed, KeyPair.sealLetter_of_sharedKey vector (Utf8.encode text) hkey]
    rfl
  · exact read_secure (KeyPair.openLetter_of_sharedKey vector _ hpeer)
  · exact read_secure (KeyPair.openLetter_of_sharedKey vector _ hkey)

theorem sealed_read_by_both_short :
    ∃ letter, Message.sealed (.generate .zero) (KeyPair.generate (.ofNat 1)).publicKey (.ofNat 2)
        (.ofNat 3) "seven" = .ok (.secure letter)
      ∧ letter.length = 64 ∧ letter.take 32 = 2 :: List.replicate 31 0
      ∧ (letter.drop 32).take 16 = 3 :: List.replicate 15 0
      ∧ (secure letter).read (.generate (.ofNat 1)) (KeyPair.generate .zero).publicKey
        = .ok "seven"
      ∧ (secure letter).read (.generate .zero) (KeyPair.generate (.ofNat 1)).publicKey
        = .ok "seven" := by
  obtain ⟨key, -, -, -, hsealed⟩ :=
    sealed_read_by_both (.generate .zero) (.generate (.ofNat 1)) (.ofNat 2)
  obtain ⟨_, rfl, hmessage, hpeer, hwriter⟩ := hsealed (.ofNat 3) "seven"
  have hsalt : (Block.ofNat 2 : Block 32).bytes = 2 :: List.replicate 31 0 := by decide
  have hvector : (Block.ofNat 3 : Block 16).bytes = 3 :: List.replicate 15 0 := by decide
  have htext : (Utf8.encode "seven").length = 5 := by decide
  refine ⟨_, hmessage, ?_, ?_, ?_, hpeer, hwriter⟩
  · rw [List.length_append, Block.length_bytes, Cipher.length_sealWith_eq, htext]
  · rw [List.take_left' (Block.length_bytes _), hsalt]
  · rw [List.drop_left' (Block.length_bytes _), Cipher.take_sealWith, hvector]

end Message

end LedgerTx
