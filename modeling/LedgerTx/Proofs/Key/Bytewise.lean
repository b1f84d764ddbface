import LedgerTx.Key.Signature
import LedgerTx.Proofs.Curve.Checked

/-!
# Single bits of compressed points and multipliers

The sign of a compressed point is the highest bit of its last byte.  It is
added to the bytes of a reduced `y`, and cleared before a `y` is loaded,
which is reduced when it is written as the same bytes again.  The fixed bits
of a multiplier are cleared and set in its first and its last byte.  All this
is arithmetic on the numbers that the bytes write.
-/

namespace LedgerTx

open Curve

-- Powers are taken with the core operation.
attribute [local instance (high)] instPowNat instNatPowNat

/-! ## Bytes of blocks -/

namespace Block

variable {size : Nat}

def byte (block : Block size) (position : Nat) : UInt8 :=
  block.bytes.getD position 0

def modify (block : Block size) (position : Nat) (f : UInt8 → UInt8) : Block size :=
  ⟨block.bytes.modify position f, by rw [List.length_modify, block.length_bytes]⟩

variable {block : Block size} {position : Nat}

theorem byte_eq_getElem (h : position < block.bytes.length) :
    block.byte position = block.bytes[position] := by
  rw [byte, List.getD_eq_getElem?_getD, List.getElem?_eq_getElem h, Option.getD_some]

theorem toNat_byte (h : position < size) :
    (block.byte position).toNat = block.toNat / 256 ^ position % 256 := by
  have hlt : position < block.bytes.length := block.length_bytes.symm ▸ h
  have hbyte := (block.byte position).toNat_lt
  rw [toNat, ← LittleEndian.decode_drop, List.drop_eq_getElem_cons hlt, LittleEndian.decode,
    ← byte_eq_getElem hlt]
  omega

theorem toNat_modify (h : position < size) (f : UInt8 → UInt8) :
    (block.modify position f).toNat = block.toNat % 256 ^ position + 256 ^ position
      * ((f (block.byte position)).toNat + 256 * (block.toNat / 256 ^ (position + 1))) := by
  have hlt : position < block.bytes.length := block.length_bytes.symm ▸ h
  have hfront : (block.bytes.take position).length = position := List.length_take_of_le hlt.le
  have hbytes : (block.modify position f).bytes = block.bytes.take position
      ++ f (block.byte position) :: block.bytes.drop (position + 1) := by
    rw [byte_eq_getElem hlt]
    exact List.modify_eq_take_cons_drop hlt
  rw [toNat, hbytes, LittleEndian.decode_append, hfront, LittleEndian.decode,
    LittleEndian.decode_take, LittleEndian.decode_drop]
  rfl

end Block

/-! ## Masks -/

namespace Byte

theorem toNat_clear_sign (b : UInt8) : (b &&& 0x7f).toNat = b.toNat % 128 := by
  rw [UInt8.toNat_and]
  exact Nat.and_two_pow_sub_one_eq_mod _ 7

theorem toNat_sign (b : UInt8) : (b >>> 7).toNat = b.toNat / 128 := by
  rw [UInt8.toNat_shiftRight]
  exact Nat.shiftRight_eq_div_pow _ 7

theorem toNat_add_sign {b : UInt8} (h : b.toNat < 128) (sign : Bool) :
    (b ^^^ sign.toUInt8 <<< 7).toNat = b.toNat + if sign then 128 else 0 := by
  cases sign with
  | false =>
      have hzero : false.toUInt8 <<< 7 = 0 := rfl
      rw [hzero, UInt8.xor_zero]
      rfl
  | true =>
      have hall := forall_byte (p := fun b => 128 ≤ b.toNat
        || (b ^^^ true.toUInt8 <<< 7).toNat == b.toNat + 128) (by decide +kernel) b
      simpa [Nat.not_le.mpr h] using hall

theorem toNat_clear_low (b : UInt8) : (b &&& 248).toNat = b.toNat / 8 * 8 := by
  have hall := forall_byte (p := fun b => (b &&& 248).toNat == b.toNat / 8 * 8)
    (by decide +kernel) b
  exact eq_of_beq hall

theorem toNat_set_top {b : UInt8} (h : b.toNat < 128) : (b ||| 64).toNat = 64 + b.toNat % 64 := by
  have hall := forall_byte (p := fun b => 128 ≤ b.toNat || (b ||| 64).toNat == 64 + b.toNat % 64)
    (by decide +kernel) b
  simpa [Nat.not_le.mpr h] using hall

end Byte

/-! ## Compressed points -/

namespace Curve.Point

open Limbs

/-- The bytes of the reduced `y`, the parity of `x` added to the highest bit of the last one. -/
def encodeBytes (p : Point) : Block 32 :=
  let inverse := p.z.invert
  let x := p.x * inverse
  let y := p.y * inverse
  y.toBlock.modify 31 fun b => b ^^^ x.isNegative.toUInt8 <<< 7

/--
Reads a compressed point.  The `y` that is left when the highest bit of the
last byte is cleared has to be written as these bytes again.
-/
def decodeBytes? (block : Block 32) : Option Point :=
  let odd := block.byte 31 >>> 7 == 1
  let cleared := block.modify 31 (· &&& 0x7f)
  let y := Limbs.ofBlock cleared
  if !Checked.sameBytes y.toBlock.bytes cleared.bytes then none
  else
    let yy := y.square
    match Limbs.sqrtRatio (yy - .one) (yy * .edwardsD + .one) with
    | (false, _) => none
    | (true, root) =>
        if root.isZero && odd then none
        else
          let x := Limbs.select root (-root) odd
          some ⟨x, y, .one, x * y⟩

theorem encode_eq_encodeBytes (p : Point) : p.encode = p.encodeBytes := by
  obtain ⟨x, hx⟩ : ∃ x, x = p.x * p.z.invert := ⟨_, rfl⟩
  obtain ⟨y, hy⟩ : ∃ y, y = p.y * p.z.invert := ⟨_, rfl⟩
  have hlt := Residue.val_lt_two_pow y.residue
  have hnumber := Checked.toNat_toBlock y
  have hlast : (y.toBlock.byte 31).toNat = y.residue.val / 256 ^ 31 % 256 := by
    rw [Block.toNat_byte (by decide), hnumber]
  apply Block.eq_of_toNat_eq
  rw [encode, encodeBytes, ← hx, ← hy, Block.toNat_modify (by decide),
    Byte.toNat_add_sign (by omega), hlast, hnumber, value_canonical, Block.toNat_ofNat]
  · split <;> omega
  · split <;> omega

theorem toNat_cleared (block : Block 32) :
    (block.modify 31 (· &&& 0x7f)).toNat = block.toNat % 2 ^ 255 := by
  have hlt := block.toNat_lt
  rw [Block.toNat_modify (by decide), Byte.toNat_clear_sign, Block.toNat_byte (by decide)]
  omega

theorem sign_eq_testBit (block : Block 32) :
    (block.byte 31 >>> 7 == 1) = block.toNat.testBit 255 := by
  have hlt := block.toNat_lt
  have hone : (1 : UInt8).toNat = 1 := rfl
  rw [Nat.testBit_eq_decide_div_mod_eq, Bool.eq_iff_iff, beq_iff_eq, decide_eq_true_iff,
    ← UInt8.toNat_inj, Byte.toNat_sign, Block.toNat_byte (by decide), hone]
  omega

/-- A number of 255 bits is written as its own bytes again when it is below the prime. -/
theorem sameBytes_toBlock_ofBlock {block : Block 32} (h : block.toNat < 2 ^ 255) :
    Checked.sameBytes (Limbs.ofBlock block).toBlock.bytes block.bytes
      = decide (block.toNat < prime) := by
  have hresidue : (Limbs.ofBlock block).toBlock.toNat = block.toNat % prime := by
    rw [Checked.toNat_toBlock, residue, ofBlock, value_ofNat (by omega), ZMod.val_natCast]
  rw [Checked.sameBytes_eq, Bool.eq_iff_iff, beq_iff_eq, decide_eq_true_iff]
  constructor
  · intro hbytes
    rw [← Block.ext hbytes, hresidue]
    exact Nat.mod_lt _ (by decide)
  · intro hlt
    rw [Nat.mod_eq_of_lt hlt] at hresidue
    rw [Block.eq_of_toNat_eq hresidue]

theorem decode?_eq_decodeBytes? (block : Block 32) : decode? block = decodeBytes? block := by
  obtain ⟨n, hn⟩ : ∃ n, n = block.toNat % 2 ^ 255 := ⟨_, rfl⟩
  have hcleared : (block.modify 31 (· &&& 0x7f)).toNat = n := (toNat_cleared block).trans hn.symm
  have hfits : n < 2 ^ 255 := hn ▸ Nat.mod_lt _ (by decide)
  have hsame := sameBytes_toBlock_ofBlock (hcleared ▸ hfits)
  rw [ofBlock, hcleared] at hsame
  unfold decode? decodeBytes?
  simp only [ofBlock, hcleared, hsame, sign_eq_testBit, ← hn]
  by_cases hlarge : prime ≤ n
  · rw [if_pos hlarge, if_pos (by simp [hlarge])]
  · have hsmall : ¬(!decide (n < prime)) = true := by simp [Nat.not_le.mp hlarge]
    refine (if_neg hlarge).trans ((if_neg hsmall).trans ?_).symm
    -- The ratio is left alone: its root takes hundreds of squarings.
    generalize sqrtRatio _ _ = ratio
    obtain ⟨_ | _, root⟩ := ratio <;> rfl

end Curve.Point

/-! ## Multipliers -/

namespace PrivateKey

/-- The front half of the digest with its fixed bits cleared and set. -/
def clamped (key : PrivateKey) : Block 32 :=
  let half := Block.front 32 key.digest Signature.half_le
  ((half.modify 0 (· &&& 248)).modify 31 (· &&& 127)).modify 31 (· ||| 64)

theorem toNat_clamped (key : PrivateKey) : key.clamped.toNat = key.multiplier := by
  obtain ⟨half, hhalf⟩ : ∃ half : Block 32,
    half = Block.front 32 key.digest Signature.half_le := ⟨_, rfl⟩
  obtain ⟨low, hlow⟩ : ∃ low : Block 32, low = half.modify 0 (· &&& 248) := ⟨_, rfl⟩
  obtain ⟨clear, hclear⟩ : ∃ clear : Block 32, clear = low.modify 31 (· &&& 127) := ⟨_, rfl⟩
  have hlowNumber : low.toNat = half.toNat / 8 * 8 := by
    rw [hlow, Block.toNat_modify (by decide), Byte.toNat_clear_low, Block.toNat_byte (by decide)]
    omega
  have hclearNumber : clear.toNat = low.toNat % 2 ^ 255 := by
    rw [hclear]
    exact Point.toNat_cleared low
  have hlast : (clear.byte 31).toNat = clear.toNat / 256 ^ 31 % 256 := Block.toNat_byte (by decide)
  rw [clamped, multiplier, ← hhalf, ← hlow, ← hclear, Block.toNat_modify (by decide),
    Byte.toNat_set_top (by omega), hlast]
  omega

theorem addMul_clamped (key : PrivateKey) (r k : Nat) :
    Scalar.addMul r k (Scalar.ofBytes key.clamped.bytes) = Scalar.addMul r k key.multiplier := by
  rw [Scalar.addMul, Scalar.addMul, Scalar.ofBytes, ← toNat_clamped, ← Block.toNat, Nat.add_mod,
    Nat.mul_mod, Nat.mod_mod, ← Nat.mul_mod, ← Nat.add_mod]

end PrivateKey

end LedgerTx
