import LedgerTx.Bytes
import Mathlib.Algebra.GroupWithZero.Nat

/-!
# Digits, pieces and sums of byte strings

The number of a part of a byte string is a quotient or a remainder of the
number of the whole.  Cutting a byte string into pieces loses nothing, and
pieces of the right size written one after another are cut apart again.
Adding the same byte string twice changes nothing.
-/

namespace LedgerTx

/-! ## Digits -/

namespace LittleEndian

theorem encode_append (m k n : Nat) : encode (m + k) n = encode m n ++ encode k (n / 256 ^ m) := by
  induction m generalizing n with
  | zero => simp [encode]
  | succ m ih =>
      rw [Nat.add_right_comm, encode, encode, ih, Nat.div_div_eq_div_mul, ← Nat.pow_succ',
        List.cons_append]

/-- Only the digits that are written matter. -/
theorem encode_add_mul (m n k : Nat) : encode m (n + 256 ^ m * k) = encode m n := by
  have hdigits (n : Nat) : encode m (n % 256 ^ m) = encode m n := by
    have h := encode_decode (encode m n)
    rwa [length_encode, decode_encode] at h
  rw [← hdigits, Nat.add_mul_mod_self_left, hdigits]

theorem decode_append (front rest : Bytes) :
    decode (front ++ rest) = decode front + 256 ^ front.length * decode rest := by
  induction front with
  | nil => simp [decode]
  | cons b front ih =>
      rw [List.cons_append, decode, decode, ih, List.length_cons, Nat.mul_add, ← Nat.mul_assoc,
        ← Nat.pow_succ', Nat.add_assoc]

theorem decode_take (n : Nat) (bytes : Bytes) : decode (bytes.take n) = decode bytes % 256 ^ n := by
  induction n generalizing bytes with
  | zero => simp [decode, Nat.mod_one]
  | succ n ih =>
      cases bytes with
      | nil => simp [decode]
      | cons b rest =>
          have hb := b.toNat_lt
          have hlow : (b.toNat + 256 * decode rest) % 256 = b.toNat := by omega
          have hhigh : (b.toNat + 256 * decode rest) / 256 = decode rest := by omega
          rw [List.take_succ_cons, decode, decode, ih, Nat.pow_succ', Nat.mod_mul, hlow, hhigh]

theorem decode_drop (n : Nat) (bytes : Bytes) : decode (bytes.drop n) = decode bytes / 256 ^ n := by
  induction n generalizing bytes with
  | zero => simp
  | succ n ih =>
      cases bytes with
      | nil => simp [decode]
      | cons b rest =>
          have hb := b.toNat_lt
          have hhigh : (b.toNat + 256 * decode rest) / 256 = decode rest := by omega
          rw [List.drop_succ_cons, ih, decode, Nat.pow_succ', ← Nat.div_div_eq_div_mul, hhigh]

end LittleEndian

theorem forall_byte {p : UInt8 → Bool} (h : (List.range 256).all (fun n => p n.toUInt8) = true)
    (b : UInt8) : p b = true := by
  have hmem := List.all_eq_true.mp h b.toNat (List.mem_range.mpr b.toNat_lt)
  rwa [Nat.toUInt8, UInt8.ofNat_toNat] at hmem

namespace Block

variable {size : Nat}

theorem toNat_lt (block : Block size) : block.toNat < 256 ^ size := by
  have hdigits := LittleEndian.decode_lt block.bytes
  rwa [block.length_bytes] at hdigits

theorem toNat_ofNat {n : Nat} (h : n < 256 ^ size) : (ofNat n : Block size).toNat = n := by
  rw [toNat, ofNat, LittleEndian.decode_encode, Nat.mod_eq_of_lt h]

end Block

namespace Bytes

/-! ## Pieces -/

variable {α : Type} {size : Nat}

theorem chunks_nil (size : Nat) : chunks size [] = [] := by
  rw [chunks, dif_neg]
  simp

theorem chunks_append {piece : Bytes} (hsize : 0 < size) (hlength : piece.length = size)
    (rest : Bytes) : chunks size (piece ++ rest) = piece :: chunks size rest := by
  rw [chunks, dif_pos, List.take_left' hlength, List.drop_left' hlength]
  rw [List.length_append]
  omega

theorem chunks_flatMap (hsize : 0 < size) {f : α → Bytes} (hlength : ∀ a, (f a).length = size)
    (list : List α) : chunks size (list.flatMap f) = list.map f := by
  induction list with
  | nil => exact chunks_nil size
  | cons a rest ih =>
      rw [List.flatMap_cons, chunks_append hsize (hlength a), ih, List.map_cons]

theorem length_flatMap {f : α → Bytes} (hlength : ∀ a, (f a).length = size) (list : List α) :
    (list.flatMap f).length = list.length * size := by
  have heach : list.map (fun a => (f a).length) = list.map fun _ => size :=
    List.map_congr_left fun a _ => hlength a
  rw [List.length_flatMap, heach, List.map_const', List.sum_replicate_nat]

theorem flatten_chunks (hsize : 0 < size) (bytes : Bytes) : (chunks size bytes).flatten = bytes := by
  induction hlength : bytes.length using Nat.strongRecOn generalizing bytes with
  | _ length ih =>
      rw [chunks]
      split
      · rename_i hpos
        have hshorter : (bytes.drop size).length < length := by
          rw [List.length_drop]
          omega
        rw [List.flatten_cons, ih _ hshorter _ rfl, List.take_append_drop]
      · rename_i hempty
        have hnil : bytes = [] := List.length_eq_zero_iff.mp (by omega)
        rw [hnil]
        rfl

theorem length_of_mem_chunks {bytes piece : Bytes} (h : bytes.length % size = 0)
    (hmem : piece ∈ chunks size bytes) : piece.length = size := by
  fun_induction chunks size bytes with
  | case1 bytes hsome ih =>
      have hsize : size ≤ bytes.length := Nat.le_of_dvd hsome.2 (Nat.dvd_of_mod_eq_zero h)
      rcases List.mem_cons.mp hmem with rfl | hlater
      · rw [List.length_take]
        omega
      · refine ih ?_ hlater
        rw [List.length_drop, ← Nat.mod_eq_sub_mod hsize, h]
  | case2 => cases hmem

/-! ## Sums -/

theorem length_padTo {width : Nat} {bytes : Bytes} (h : bytes.length ≤ width) :
    (padTo width bytes).length = width := by
  rw [padTo, List.length_append, List.length_replicate]
  omega

/-- Padding is cut off again by the length. -/
theorem take_padTo (width : Nat) (bytes : Bytes) :
    (padTo width bytes).take bytes.length = bytes :=
  List.take_left' rfl

theorem xor_xor_cancel {a b : Bytes} (h : a.length ≤ b.length) : xor (xor a b) b = a := by
  induction a generalizing b with
  | nil => rfl
  | cons x rest ih =>
      cases b with
      | nil => cases h
      | cons y others =>
          have hrest := ih (Nat.le_of_succ_le_succ h)
          show ((x ^^^ y) ^^^ y) :: xor (xor rest others) others = x :: rest
          rw [hrest, UInt8.xor_assoc, UInt8.xor_self, UInt8.xor_zero]

end Bytes

end LedgerTx
