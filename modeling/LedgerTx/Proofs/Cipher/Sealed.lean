import LedgerTx.Cipher.Sealed
import LedgerTx.Proofs.Bytes
import LedgerTx.Proofs.Cipher.Aes

/-!
# Sealed byte strings open again

Padding fills the last block and tells its own length, so it is found again
whatever the length of the plaintext.  A chained block is opened with the
cipher block before it, which both sides have.  Nothing else opens: what is
opened is sealed to the same bytes again.
-/

namespace LedgerTx.Cipher

/-! ## Padding -/

theorem length_pad (plain : Bytes) : (pad plain).length = plain.length + (16 - plain.length % 16) := by
  rw [pad, List.length_append, List.length_replicate]

theorem length_pad_mod (plain : Bytes) : (pad plain).length % 16 = 0 := by
  rw [length_pad]
  omega

theorem unpad?_pad (plain : Bytes) : unpad? (pad plain) = some plain := by
  obtain ⟨count, hcount⟩ : ∃ count, count = 16 - plain.length % 16 := ⟨_, rfl⟩
  have hpos : 1 ≤ count := by omega
  have hle : count ≤ 16 := by omega
  have hpad : pad plain = plain ++ List.replicate count count.toUInt8 := by
    rw [pad, ← hcount]
  have hlast : (((pad plain).getLast?.getD 0).toNat) = count := by
    rw [hpad, List.getLast?_append, List.getLast?_replicate, if_neg (by omega), Option.some_or,
      Option.getD_some]
    exact Nat.mod_eq_of_lt (by omega)
  have hlength : (pad plain).length = plain.length + count := by
    rw [length_pad, hcount]
  have hkept : (pad plain).length - count = plain.length := by
    rw [hlength, Nat.add_sub_cancel]
  unfold unpad?
  dsimp only
  rw [hlast, hkept, hpad, List.drop_left, List.take_left]
  refine if_pos ⟨hpos, hle, ?_, rfl⟩
  rw [← hpad, hlength]
  exact Nat.le_add_left _ _

/-- Whole blocks are unpadded to the plaintext that they are the padding of, and to no other. -/
theorem unpad?_eq_some {padded plain : Bytes} (hwhole : padded.length % 16 = 0) :
    unpad? padded = some plain ↔ padded = pad plain := by
  constructor
  · intro h
    unfold unpad? at h
    dsimp only at h
    obtain ⟨count, hcount⟩ : ∃ count, count = (padded.getLast?.getD 0).toNat := ⟨_, rfl⟩
    rw [← hcount] at h
    obtain ⟨⟨hpos, hle, hlong, hpadding⟩, h⟩ := Option.ite_none_right_eq_some.mp h
    cases h
    have hlength : (padded.take (padded.length - count)).length = padded.length - count :=
      List.length_take_of_le (Nat.sub_le _ _)
    -- the padding fills the last block, so its length is the one that the plaintext asks for
    have hfill : 16 - (padded.length - count) % 16 = count := by omega
    calc padded
        = padded.take (padded.length - count) ++ padded.drop (padded.length - count) :=
          (List.take_append_drop _ _).symm
      _ = pad (padded.take (padded.length - count)) := by
          rw [pad, hlength, hfill, hpadding]
  · rintro rfl
    exact unpad?_pad plain

/-! ## Chaining -/

theorem unchain_chain (keys : RoundKeys) (before : CipherState) (plain : List CipherState) :
    unchain keys before (chain keys before plain) = plain := by
  induction plain generalizing before with
  | nil => rfl
  | cons block rest ih =>
      rw [chain, unchain, ih, RoundKeys.decrypt_encrypt, CipherState.xor_xor_cancel]

theorem chain_unchain (keys : RoundKeys) (before : CipherState) (sealed : List CipherState) :
    chain keys before (unchain keys before sealed) = sealed := by
  induction sealed generalizing before with
  | nil => rfl
  | cons block rest ih =>
      rw [unchain, chain, CipherState.xor_xor_cancel, RoundKeys.encrypt_decrypt, ih]

theorem length_chain (keys : RoundKeys) (before : CipherState) (plain : List CipherState) :
    (chain keys before plain).length = plain.length := by
  induction plain generalizing before with
  | nil => rfl
  | cons block rest ih => rw [chain, List.length_cons, ih, List.length_cons]

/-! ## Blocks -/

theorem Column.toBytes_ofBytes {bytes : Bytes} (h : 4 ≤ bytes.length) :
    (ofBytes bytes).toBytes = bytes.take 4 := by
  match bytes, h with
  | b0 :: b1 :: b2 :: b3 :: rest, _ => rfl

namespace CipherState

@[simp]
theorem length_toBytes (s : CipherState) : s.toBytes.length = blockSize := rfl

theorem ofBytes_toBytes (s : CipherState) : ofBytes s.toBytes = s := rfl

theorem toBytes_ofBytes {bytes : Bytes} (h : bytes.length = blockSize) :
    (ofBytes bytes).toBytes = bytes := by
  have hcolumn (start : Nat) (hstart : start ≤ 12) :
      (Column.ofBytes (bytes.drop start)).toBytes = (bytes.drop start).take 4 := by
    apply Column.toBytes_ofBytes
    rw [List.length_drop, h, blockSize]
    omega
  rw [toBytes, ofBytes, hcolumn 4 (by decide), hcolumn 8 (by decide), hcolumn 12 (by decide),
    Column.toBytes_ofBytes (h ▸ by decide), ← List.take_add, ← List.take_add, ← List.take_add]
  exact List.take_of_length_le (Nat.le_of_eq h)

end CipherState

theorem blocks_flatMap (states : List CipherState) :
    blocks (states.flatMap CipherState.toBytes) = states := by
  have hstates : states.map (fun s => CipherState.ofBytes s.toBytes) = states.map id :=
    List.map_congr_left fun s _ => s.ofBytes_toBytes
  rw [blocks, Bytes.chunks_flatMap (by decide) CipherState.length_toBytes, List.map_map]
  exact hstates.trans (List.map_id states)

theorem flatMap_blocks {bytes : Bytes} (h : bytes.length % blockSize = 0) :
    (blocks bytes).flatMap CipherState.toBytes = bytes := by
  have hpieces : (Bytes.chunks blockSize bytes).map (fun piece => (CipherState.ofBytes piece).toBytes)
      = Bytes.chunks blockSize bytes := by
    rw [List.map_congr_left (g := id), List.map_id]
    intro piece hpiece
    exact CipherState.toBytes_ofBytes (Bytes.length_of_mem_chunks h hpiece)
  rw [blocks, List.flatMap_map, List.flatMap_def, hpieces]
  exact Bytes.flatten_chunks (by decide) bytes

/-! ## Sealing -/

variable (key : Block keySize) (vector : Block blockSize) (plain : Bytes)

theorem length_sealWith : (sealWith key vector plain).length = 16 + (pad plain).length := by
  have hblocks := congrArg List.length (flatMap_blocks (length_pad_mod plain))
  rw [Bytes.length_flatMap CipherState.length_toBytes] at hblocks
  rw [sealWith, List.length_append, vector.length_bytes,
    Bytes.length_flatMap CipherState.length_toBytes, length_chain, hblocks]

/-- The length tells how many blocks a plaintext fills, the one that its padding begins included. -/
theorem length_sealWith_eq :
    (sealWith key vector plain).length = 16 + 16 * (plain.length / 16 + 1) := by
  rw [length_sealWith, length_pad]
  omega

theorem take_sealWith :
    (sealWith key vector plain).take blockSize = vector.bytes :=
  List.take_left' vector.length_bytes

theorem unseal?_sealWith : unseal? key (sealWith key vector plain) = some plain := by
  have hlength := length_sealWith key vector plain
  have hwhole := length_pad_mod plain
  have hpos : 0 < (pad plain).length := by
    rw [length_pad]
    omega
  have hfront : (sealWith key vector plain).take 16 = vector.bytes :=
    List.take_left' vector.length_bytes
  have hback : (sealWith key vector plain).drop 16 = (chain (.ofKey key) (.ofBytes vector.bytes)
      (blocks (pad plain))).flatMap CipherState.toBytes :=
    List.drop_left' vector.length_bytes
  unfold unseal?
  rw [if_neg (by omega), hfront, hback]
  dsimp only
  rw [blocks_flatMap, unchain_chain, flatMap_blocks hwhole]
  exact unpad?_pad plain

theorem unseal?_eq_some {key : Block keySize} {sealed plain : Bytes} :
    unseal? key sealed = some plain ↔ ∃ vector : Block blockSize,
      vector.bytes = sealed.take blockSize ∧ sealed = sealWith key vector plain := by
  constructor
  · intro h
    obtain ⟨hshape, h⟩ := Option.ite_none_left_eq_some.mp h
    obtain ⟨hlong, hwhole⟩ : 32 ≤ sealed.length ∧ sealed.length % 16 = 0 := by omega
    let vector : Block blockSize :=
      ⟨sealed.take blockSize, List.length_take_of_le (Nat.le_trans (by decide) hlong)⟩
    have hback : (sealed.drop blockSize).length % blockSize = 0 := by
      rw [List.length_drop, blockSize]
      omega
    have hpadded := (unpad?_eq_some (by
      rw [Bytes.length_flatMap CipherState.length_toBytes]
      exact Nat.mul_mod_left _ _)).mp h
    refine ⟨vector, rfl, ?_⟩
    rw [sealWith, ← hpadded, blocks_flatMap, chain_unchain, flatMap_blocks hback]
    exact (List.take_append_drop _ _).symm
  · rintro ⟨vector, -, rfl⟩
    exact unseal?_sealWith key vector plain

end LedgerTx.Cipher
