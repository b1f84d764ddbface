import LedgerTx.Proofs.Curve.Prime
import Mathlib.Tactic.LinearCombination

/-!
# Limb arithmetic as field arithmetic

Limbs stand for a residue.  On limbs below `2 ^ 52` no word operation
overflows, every operation returns such limbs, and it computes the field
operation on the residues.  The canonical form is read off the residue, so
comparison and parity are those of the reduced value.
-/

namespace LedgerTx.Curve

namespace Limbs

/-! ## Words -/

theorem toNat_and_mask (w : UInt64) : (w &&& mask).toNat = w.toNat % 2 ^ 51 := by
  rw [UInt64.toNat_and]
  exact Nat.and_two_pow_sub_one_eq_mod _ 51

theorem toNat_shiftRight (w : UInt64) : (w >>> 51).toNat = w.toNat / 2 ^ 51 := by
  rw [UInt64.toNat_shiftRight]
  exact Nat.shiftRight_eq_div_pow _ 51

theorem toNat_add {v w : UInt64} (h : v.toNat + w.toNat < 2 ^ 64) :
    (v + w).toNat = v.toNat + w.toNat := by
  rw [UInt64.toNat_add, Nat.mod_eq_of_lt h]

theorem toNat_mul {v w : UInt64} (h : v.toNat * w.toNat < 2 ^ 64) :
    (v * w).toNat = v.toNat * w.toNat := by
  rw [UInt64.toNat_mul, Nat.mod_eq_of_lt h]

theorem toNat_add_sub {v w k : UInt64} (hsum : v.toNat + k.toNat < 2 ^ 64)
    (hle : w.toNat ≤ v.toNat + k.toNat) : (v + k - w).toNat = v.toNat + k.toNat - w.toNat := by
  have hsub : w ≤ v + k := by
    rw [UInt64.le_iff_toNat_le, toNat_add hsum]
    exact hle
  rw [UInt64.toNat_sub_of_le _ _ hsub, toNat_add hsum]

theorem toNat_add_carried (low high : UInt64) :
    ((low &&& mask) + high >>> 51).toNat = low.toNat % 2 ^ 51 + high.toNat / 2 ^ 51 := by
  have hhigh := high.toNat_lt
  rw [toNat_add, toNat_and_mask, toNat_shiftRight]
  rw [toNat_and_mask, toNat_shiftRight]
  omega

theorem toNat_add_returned (low high : UInt64) :
    ((low &&& mask) + (high >>> 51) * 19).toNat
      = low.toNat % 2 ^ 51 + high.toNat / 2 ^ 51 * 19 := by
  have hhigh := high.toNat_lt
  have hconst : (19 : UInt64).toNat = 19 := rfl
  have hmul : ((high >>> 51) * 19).toNat = high.toNat / 2 ^ 51 * 19 := by
    rw [toNat_mul] <;> rw [toNat_shiftRight, hconst]
    omega
  rw [toNat_add, toNat_and_mask, hmul]
  rw [toNat_and_mask, hmul]
  omega

/-! ## Bounds and residues -/

/-- Limbs as every operation takes and returns them. -/
structure Bounded (a : Limbs) : Prop where
  l0 : a.l0.toNat < 2 ^ 52
  l1 : a.l1.toNat < 2 ^ 52
  l2 : a.l2.toNat < 2 ^ 52
  l3 : a.l3.toNat < 2 ^ 52
  l4 : a.l4.toNat < 2 ^ 52

instance (a : Limbs) : Decidable a.Bounded :=
  decidable_of_iff (a.l0.toNat < 2 ^ 52 ∧ a.l1.toNat < 2 ^ 52 ∧ a.l2.toNat < 2 ^ 52
      ∧ a.l3.toNat < 2 ^ 52 ∧ a.l4.toNat < 2 ^ 52)
    ⟨fun ⟨h0, h1, h2, h3, h4⟩ => ⟨h0, h1, h2, h3, h4⟩,
      fun ⟨h0, h1, h2, h3, h4⟩ => ⟨h0, h1, h2, h3, h4⟩⟩

def residue (a : Limbs) : Residue := a.value

theorem residue_eq_natCast {a : Limbs} {n quotient : Nat} (h : a.value + prime * quotient = n) :
    a.residue = n := by
  rw [← h, Nat.cast_add, Nat.cast_mul, CharP.cast_eq_zero Residue prime, zero_mul, add_zero]
  rfl

theorem natCast_value (a : Limbs) :
    (a.value : Residue) = a.l0.toNat + 2 ^ 51 * a.l1.toNat + 2 ^ 102 * a.l2.toNat
      + 2 ^ 153 * a.l3.toNat + 2 ^ 204 * a.l4.toNat := by
  simp only [value, Nat.cast_add, Nat.cast_mul, Nat.cast_pow, Nat.cast_ofNat]

@[simp] theorem residue_zero : zero.residue = 0 := by
  simp [residue, value, zero]

@[simp] theorem residue_one : one.residue = 1 := by
  simp [residue, value, one]

theorem residue_edwardsD : edwardsD.residue = Residue.edwardsD := rfl

theorem residue_sqrtMinusOne : sqrtMinusOne.residue = Residue.root := rfl

theorem residue_edwardsD2 : edwardsD2.residue = 2 * Residue.edwardsD := by
  have h : ((edwardsD2.value : Nat) : Residue) = ((2 * edwardsD.value : Nat) : Residue) :=
    (ZMod.natCast_eq_natCast_iff' _ _ _).mpr (by decide)
  rw [Nat.cast_mul, Nat.cast_ofNat] at h
  exact h

theorem bounded_zero : zero.Bounded := by decide

theorem bounded_one : one.Bounded := by decide

theorem bounded_edwardsD : edwardsD.Bounded := by decide

theorem bounded_edwardsD2 : edwardsD2.Bounded := by decide

theorem bounded_sqrtMinusOne : sqrtMinusOne.Bounded := by decide

theorem value_ofNat {n : Nat} (hn : n < 2 ^ 255) : (ofNat n).value = n := by
  simp only [ofNat, value, Nat.toUInt64, UInt64.toNat_ofNat']
  omega

theorem bounded_ofNat (n : Nat) : (ofNat n).Bounded := by
  constructor <;> simp only [ofNat, Nat.toUInt64, UInt64.toNat_ofNat'] <;> omega

/-! ## Carries and the canonical form -/

theorem bounded_carry (a : Limbs) : a.carry.Bounded := by
  have h0 := a.l0.toNat_lt
  have h1 := a.l1.toNat_lt
  have h2 := a.l2.toNat_lt
  have h3 := a.l3.toNat_lt
  have h4 := a.l4.toNat_lt
  constructor <;> simp only [carry, toNat_add_carried, toNat_add_returned] <;> omega

theorem value_carry (a : Limbs) : a.carry.value + prime * (a.l4.toNat / 2 ^ 51) = a.value := by
  simp only [carry, value, toNat_add_carried, toNat_add_returned, prime]
  omega

@[simp] theorem residue_carry (a : Limbs) : a.carry.residue = a.residue :=
  residue_eq_natCast a.value_carry

/-- A carried value is below twice the prime, so one subtraction reduces it. -/
theorem value_carry_lt (a : Limbs) : a.carry.value < 2 * prime := by
  have h0 := a.l0.toNat_lt
  have h1 := a.l1.toNat_lt
  have h2 := a.l2.toNat_lt
  have h3 := a.l3.toNat_lt
  have h4 := a.l4.toNat_lt
  simp only [carry, value, toNat_add_carried, toNat_add_returned, prime]
  omega

/-- Limbs below `2 ^ 51`, as settling leaves them. -/
structure Settled (a : Limbs) : Prop where
  l0 : a.l0.toNat < 2 ^ 51
  l1 : a.l1.toNat < 2 ^ 51
  l2 : a.l2.toNat < 2 ^ 51
  l3 : a.l3.toNat < 2 ^ 51
  l4 : a.l4.toNat < 2 ^ 51

theorem Settled.ext {a b : Limbs} (ha : a.Settled) (hb : b.Settled) (h : a.value = b.value) :
    a = b := by
  obtain ⟨ha0, ha1, ha2, ha3, ha4⟩ := ha
  obtain ⟨hb0, hb1, hb2, hb3, hb4⟩ := hb
  unfold value at h
  have h0 : a.l0.toNat = b.l0.toNat := by omega
  have h1 : a.l1.toNat = b.l1.toNat := by omega
  have h2 : a.l2.toNat = b.l2.toNat := by omega
  have h3 : a.l3.toNat = b.l3.toNat := by omega
  have h4 : a.l4.toNat = b.l4.toNat := by omega
  cases a
  cases b
  simp only [UInt64.toNat_inj] at h0 h1 h2 h3 h4
  simp only [h0, h1, h2, h3, h4]

theorem toNat_add_ripple {v w : UInt64} (hv : v.toNat < 2 ^ 53) (hw : w.toNat < 2 ^ 63) :
    (v + w >>> 51).toNat = v.toNat + w.toNat / 2 ^ 51 := by
  rw [toNat_add, toNat_shiftRight]
  rw [toNat_shiftRight]
  omega

theorem settled_settle (a : Limbs) : a.settle.Settled := by
  constructor <;> simp only [settle, toNat_and_mask] <;> omega

theorem value_settle {a : Limbs} (h0 : a.l0.toNat < 2 ^ 53) (h1 : a.l1.toNat < 2 ^ 53)
    (h2 : a.l2.toNat < 2 ^ 53) (h3 : a.l3.toNat < 2 ^ 53) (h4 : a.l4.toNat < 2 ^ 53) :
    a.settle.value = a.value % 2 ^ 255 := by
  have r1 := toNat_add_ripple (w := a.l0) h1 (by omega)
  have r2 := toNat_add_ripple (w := a.l1 + a.l0 >>> 51) h2 (by omega)
  have r3 := toNat_add_ripple (w := a.l2 + (a.l1 + a.l0 >>> 51) >>> 51) h3 (by omega)
  have r4 := toNat_add_ripple (w := a.l3 + (a.l2 + (a.l1 + a.l0 >>> 51) >>> 51) >>> 51) h4
    (by omega)
  simp only [settle, value, toNat_and_mask]
  omega

theorem toNat_excess {a : Limbs} (h : a.Bounded) :
    a.excess.toNat = (a.value + 19) / 2 ^ 255 := by
  obtain ⟨h0, h1, h2, h3, h4⟩ := h
  have hconst : (19 : UInt64).toNat = 19 := rfl
  have r0 : (a.l0 + 19).toNat = a.l0.toNat + 19 := by
    rw [toNat_add] <;> rw [hconst]
    omega
  have r1 := toNat_add_ripple (v := a.l1) (w := a.l0 + 19) (by omega) (by omega)
  have r2 := toNat_add_ripple (v := a.l2) (w := a.l1 + (a.l0 + 19) >>> 51) (by omega) (by omega)
  have r3 := toNat_add_ripple (v := a.l3) (w := a.l2 + (a.l1 + (a.l0 + 19) >>> 51) >>> 51)
    (by omega) (by omega)
  have r4 := toNat_add_ripple (v := a.l4)
    (w := a.l3 + (a.l2 + (a.l1 + (a.l0 + 19) >>> 51) >>> 51) >>> 51) (by omega) (by omega)
  simp only [excess, value, toNat_shiftRight]
  omega

/-- At most one prime has to be taken off carried limbs. -/
theorem toNat_excess_carry (a : Limbs) : a.carry.excess.toNat ≤ 1 := by
  have hlt := a.value_carry_lt
  rw [toNat_excess a.bounded_carry]
  unfold prime at hlt
  omega

theorem settled_canonical (a : Limbs) : a.canonical.Settled :=
  settled_settle _

/-- Adding 19 to a number from the prime on carries it past `2 ^ 255`. -/
theorem mod_prime_eq {n : Nat} (h : n < 2 * prime) :
    n % prime = (n + 19 * ((n + 19) / 2 ^ 255)) % 2 ^ 255 := by
  unfold prime at *
  by_cases hsmall : n < 2 ^ 255 - 19
  · have hzero : (n + 19) / 2 ^ 255 = 0 := by omega
    rw [hzero, Nat.mod_eq_of_lt hsmall]
    omega
  · have hone : (n + 19) / 2 ^ 255 = 1 := by omega
    rw [hone]
    omega

theorem value_canonical (a : Limbs) : a.canonical.value = a.residue.val := by
  obtain ⟨c, hc⟩ : ∃ c, c = a.carry := ⟨_, rfl⟩
  have hbounded := a.bounded_carry
  have hlt := a.value_carry_lt
  have hone := a.toNat_excess_carry
  have hreduced : a.residue.val = a.carry.value % prime := by
    rw [← residue_carry, residue, ZMod.val_natCast]
  have hexcess := toNat_excess hbounded
  rw [← hc] at hbounded hlt hone hreduced hexcess
  obtain ⟨h0, h1, h2, h3, h4⟩ := hbounded
  have hconst : (19 : UInt64).toNat = 19 := rfl
  have hmul : (19 * c.excess).toNat = 19 * c.excess.toNat := by
    rw [toNat_mul] <;> rw [hconst]
    omega
  have hlow : (c.l0 + 19 * c.excess).toNat = c.l0.toNat + 19 * c.excess.toNat := by
    rw [toNat_add] <;> rw [hmul]
    omega
  have hsettle := value_settle (a := { c with l0 := c.l0 + 19 * c.excess })
    (by simp only [hlow]; omega) (by simp only; omega) (by simp only; omega)
    (by simp only; omega) (by simp only; omega)
  have hshifted : ({ c with l0 := c.l0 + 19 * c.excess } : Limbs).value
      = c.value + 19 * c.excess.toNat := by
    simp only [value, hlow]
    omega
  rw [hreduced, canonical, ← hc, hsettle, hshifted, hexcess, ← mod_prime_eq hlt]

@[simp] theorem same_eq_true {a b : Limbs} : a.same b = true ↔ a.residue = b.residue := by
  rw [same, beq_iff_eq]
  constructor
  · intro h
    apply ZMod.val_injective prime
    rw [← value_canonical, ← value_canonical, h]
  · intro h
    apply (settled_canonical a).ext (settled_canonical b)
    rw [value_canonical, value_canonical, h]

theorem isZero_eq_true {a : Limbs} : a.isZero = true ↔ a.residue = 0 := by
  rw [isZero, same_eq_true, residue_zero]

theorem isNegative_eq (a : Limbs) : a.isNegative = decide (a.residue.val % 2 = 1) := by
  have hparity : (a.canonical.l0 &&& 1).toNat = a.residue.val % 2 := by
    rw [← value_canonical, UInt64.toNat_and, show (1 : UInt64).toNat = 1 from rfl,
      Nat.and_one_is_mod]
    unfold value
    omega
  rw [isNegative, Bool.eq_iff_iff, beq_iff_eq, decide_eq_true_iff, ← UInt64.toNat_inj, hparity]
  rfl

/-! ## Ring operations -/

section Ring

variable {a b : Limbs}

theorem bounded_add (a b : Limbs) : (a + b).Bounded :=
  bounded_carry _

theorem residue_add (ha : a.Bounded) (hb : b.Bounded) :
    (a + b).residue = a.residue + b.residue := by
  obtain ⟨ha0, ha1, ha2, ha3, ha4⟩ := ha
  obtain ⟨hb0, hb1, hb2, hb3, hb4⟩ := hb
  change (carry _).residue = _
  rw [residue_carry, residue, residue, residue, ← Nat.cast_add]
  congr 1
  simp only [value]
  rw [toNat_add (by omega), toNat_add (by omega), toNat_add (by omega), toNat_add (by omega),
    toNat_add (by omega)]
  omega

theorem bounded_sub (a b : Limbs) : (a - b).Bounded :=
  bounded_carry _

/-- The constants that a difference adds to the limbs are sixteen times the prime. -/
theorem value_uncarried_sub (ha : a.Bounded) (hb : b.Bounded) :
    value ⟨a.l0 + 36028797018963664 - b.l0, a.l1 + 36028797018963952 - b.l1,
        a.l2 + 36028797018963952 - b.l2, a.l3 + 36028797018963952 - b.l3,
        a.l4 + 36028797018963952 - b.l4⟩ + b.value = a.value + prime * 16 := by
  obtain ⟨ha0, ha1, ha2, ha3, ha4⟩ := ha
  obtain ⟨hb0, hb1, hb2, hb3, hb4⟩ := hb
  have hlow : (36028797018963664 : UInt64).toNat = 36028797018963664 := rfl
  have hhigh : (36028797018963952 : UInt64).toNat = 36028797018963952 := rfl
  simp only [value, prime]
  rw [toNat_add_sub, toNat_add_sub, toNat_add_sub, toNat_add_sub, toNat_add_sub, hlow, hhigh]
  all_goals omega

theorem residue_sub (ha : a.Bounded) (hb : b.Bounded) :
    (a - b).residue = a.residue - b.residue := by
  have hvalue := congrArg (Nat.cast (R := Residue)) (value_uncarried_sub ha hb)
  rw [Nat.cast_add, Nat.cast_add, Nat.cast_mul, CharP.cast_eq_zero Residue prime, zero_mul,
    add_zero] at hvalue
  rw [eq_sub_iff_add_eq]
  change (carry _).residue + _ = _
  rw [residue_carry]
  exact hvalue

theorem bounded_neg (a : Limbs) : (-a).Bounded :=
  bounded_sub zero a

theorem residue_neg (ha : a.Bounded) : (-a).residue = -a.residue := by
  change (zero - a).residue = _
  rw [residue_sub bounded_zero ha, residue_zero, zero_sub]

/--
The limbs of five column sums, carried upwards once; the carry of the top
column returns to the lowest limb times 19.
-/
def gather (s0 s1 s2 s3 s4 : Nat) : Limbs :=
  let c1 := s1 + s0 >>> 51
  let c2 := s2 + c1 >>> 51
  let c3 := s3 + c2 >>> 51
  let c4 := s4 + c3 >>> 51
  let r0 := (s0.toUInt64 &&& mask) + (c4 >>> 51).toUInt64 * 19
  ⟨r0 &&& mask, (c1.toUInt64 &&& mask) + r0 >>> 51, c2.toUInt64 &&& mask,
    c3.toUInt64 &&& mask, c4.toUInt64 &&& mask⟩

theorem toNat_toUInt64_and_mask (n : Nat) : (n.toUInt64 &&& mask).toNat = n % 2 ^ 51 := by
  rw [toNat_and_mask, Nat.toUInt64, UInt64.toNat_ofNat']
  omega

section Gather

variable (s0 s1 s2 s3 s4 : Nat)

/-- The value of gathered columns, up to a multiple of the prime. -/
theorem gather_spec (h0 : s0 < 2 ^ 113) (h1 : s1 < 2 ^ 113) (h2 : s2 < 2 ^ 113)
    (h3 : s3 < 2 ^ 113) (h4 : s4 < 2 ^ 108) :
    (gather s0 s1 s2 s3 s4).Bounded ∧ ∃ quotient,
      (gather s0 s1 s2 s3 s4).value + prime * quotient
        = s0 + 2 ^ 51 * s1 + 2 ^ 102 * s2 + 2 ^ 153 * s3 + 2 ^ 204 * s4 := by
  obtain ⟨c1, hc1⟩ : ∃ c1, c1 = s1 + s0 / 2 ^ 51 := ⟨_, rfl⟩
  obtain ⟨c2, hc2⟩ : ∃ c2, c2 = s2 + c1 / 2 ^ 51 := ⟨_, rfl⟩
  obtain ⟨c3, hc3⟩ : ∃ c3, c3 = s3 + c2 / 2 ^ 51 := ⟨_, rfl⟩
  obtain ⟨c4, hc4⟩ : ∃ c4, c4 = s4 + c3 / 2 ^ 51 := ⟨_, rfl⟩
  have hconst : (19 : UInt64).toNat = 19 := rfl
  have htop : c4 / 2 ^ 51 < 2 ^ 58 := by omega
  have hreturn : ((c4 / 2 ^ 51).toUInt64 * 19).toNat = c4 / 2 ^ 51 * 19 := by
    rw [toNat_mul] <;> rw [Nat.toUInt64, UInt64.toNat_ofNat', hconst] <;> omega
  obtain ⟨r0, hr0⟩ : ∃ r0, r0 = (s0.toUInt64 &&& mask) + (c4 / 2 ^ 51).toUInt64 * 19 := ⟨_, rfl⟩
  have hlow : r0.toNat = s0 % 2 ^ 51 + c4 / 2 ^ 51 * 19 := by
    rw [hr0, toNat_add] <;> rw [toNat_toUInt64_and_mask, hreturn]
    omega
  have hfirst := toNat_and_mask r0
  have hsecond : ((c1.toUInt64 &&& mask) + r0 >>> 51).toNat = c1 % 2 ^ 51 + r0.toNat / 2 ^ 51 := by
    rw [toNat_add] <;> rw [toNat_toUInt64_and_mask, toNat_shiftRight]
    omega
  have hgather : gather s0 s1 s2 s3 s4 = ⟨r0 &&& mask, (c1.toUInt64 &&& mask) + r0 >>> 51,
      c2.toUInt64 &&& mask, c3.toUInt64 &&& mask, c4.toUInt64 &&& mask⟩ := by
    simp only [gather, Nat.shiftRight_eq_div_pow, ← hc1, ← hc2, ← hc3, ← hc4, ← hr0]
  rw [hgather]
  constructor
  · constructor <;> simp only [hfirst, toNat_toUInt64_and_mask, hsecond] <;> omega
  · refine ⟨c4 / 2 ^ 51, ?_⟩
    simp only [value, hfirst, toNat_toUInt64_and_mask, hsecond, prime]
    omega

end Gather

theorem wide_lt {x y : UInt64} {i j : Nat} (hx : x.toNat < 2 ^ i) (hy : y.toNat < 2 ^ j) :
    wide x y < 2 ^ (i + j) := by
  rw [wide, pow_add]
  exact Nat.mul_lt_mul'' hx hy

theorem toNat_mul_nineteen {w : UInt64} (h : w.toNat < 2 ^ 52) :
    (w * 19).toNat = w.toNat * 19 := by
  have hconst : (19 : UInt64).toNat = 19 := rfl
  rw [toNat_mul] <;> rw [hconst]
  omega

/-- The column sums of a product, with room for the carries of a second one. -/
theorem columns_lt (ha : a.Bounded) (hb : b.Bounded) :
    wide a.l0 b.l0 + wide a.l4 (b.l1 * 19) + wide a.l3 (b.l2 * 19) + wide a.l2 (b.l3 * 19)
        + wide a.l1 (b.l4 * 19) < 2 ^ 113
      ∧ wide a.l1 b.l0 + wide a.l0 b.l1 + wide a.l4 (b.l2 * 19) + wide a.l3 (b.l3 * 19)
        + wide a.l2 (b.l4 * 19) < 2 ^ 113
      ∧ wide a.l2 b.l0 + wide a.l1 b.l1 + wide a.l0 b.l2 + wide a.l4 (b.l3 * 19)
        + wide a.l3 (b.l4 * 19) < 2 ^ 113
      ∧ wide a.l3 b.l0 + wide a.l2 b.l1 + wide a.l1 b.l2 + wide a.l0 b.l3
        + wide a.l4 (b.l4 * 19) < 2 ^ 113
      ∧ wide a.l4 b.l0 + wide a.l3 b.l1 + wide a.l2 b.l2 + wide a.l1 b.l3 + wide a.l0 b.l4
        < 2 ^ 108 := by
  obtain ⟨ha0, ha1, ha2, ha3, ha4⟩ := ha
  obtain ⟨hb0, hb1, hb2, hb3, hb4⟩ := hb
  have hplain (x y : UInt64) (hx : x.toNat < 2 ^ 52) (hy : y.toNat < 2 ^ 52) :
      wide x y < 2 ^ 104 :=
    wide_lt hx hy
  have htimes (x y : UInt64) (hx : x.toNat < 2 ^ 52) (hy : y.toNat < 2 ^ 52) :
      wide x (y * 19) < 2 ^ 110 :=
    wide_lt (i := 52) (j := 58) hx (by rw [toNat_mul_nineteen hy]; omega)
  refine ⟨?_, ?_, ?_, ?_, ?_⟩
  · have h00 := hplain _ _ ha0 hb0
    have h41 := htimes _ _ ha4 hb1
    have h32 := htimes _ _ ha3 hb2
    have h23 := htimes _ _ ha2 hb3
    have h14 := htimes _ _ ha1 hb4
    omega
  · have h10 := hplain _ _ ha1 hb0
    have h01 := hplain _ _ ha0 hb1
    have h42 := htimes _ _ ha4 hb2
    have h33 := htimes _ _ ha3 hb3
    have h24 := htimes _ _ ha2 hb4
    omega
  · have h20 := hplain _ _ ha2 hb0
    have h11 := hplain _ _ ha1 hb1
    have h02 := hplain _ _ ha0 hb2
    have h43 := htimes _ _ ha4 hb3
    have h34 := htimes _ _ ha3 hb4
    omega
  · have h30 := hplain _ _ ha3 hb0
    have h21 := hplain _ _ ha2 hb1
    have h12 := hplain _ _ ha1 hb2
    have h03 := hplain _ _ ha0 hb3
    have h44 := htimes _ _ ha4 hb4
    omega
  · have h40 := hplain _ _ ha4 hb0
    have h31 := hplain _ _ ha3 hb1
    have h22 := hplain _ _ ha2 hb2
    have h13 := hplain _ _ ha1 hb3
    have h04 := hplain _ _ ha0 hb4
    omega

theorem mul_spec (ha : a.Bounded) (hb : b.Bounded) :
    (a * b).Bounded ∧ (a * b).residue = a.residue * b.residue := by
  have hm1 := toNat_mul_nineteen hb.l1
  have hm2 := toNat_mul_nineteen hb.l2
  have hm3 := toNat_mul_nineteen hb.l3
  have hm4 := toNat_mul_nineteen hb.l4
  obtain ⟨h0, h1, h2, h3, h4⟩ := columns_lt ha hb
  obtain ⟨hbounded, quotient, hvalue⟩ := gather_spec _ _ _ _ _ h0 h1 h2 h3 h4
  refine ⟨hbounded, (residue_eq_natCast hvalue).trans ?_⟩
  rw [residue, residue, natCast_value, natCast_value]
  simp only [wide, hm1, hm2, hm3, hm4]
  push_cast
  -- The products of weight `2 ^ 255` and more are the ones that entered times 19.
  linear_combination -(a.l4.toNat * b.l1.toNat + a.l3.toNat * b.l2.toNat
      + a.l2.toNat * b.l3.toNat + a.l1.toNat * b.l4.toNat
    + 2 ^ 51 * (a.l4.toNat * b.l2.toNat + a.l3.toNat * b.l3.toNat + a.l2.toNat * b.l4.toNat)
    + 2 ^ 102 * (a.l4.toNat * b.l3.toNat + a.l3.toNat * b.l4.toNat)
    + 2 ^ 153 * (a.l4.toNat * b.l4.toNat)) * Residue.two_pow_255

end Ring

/-! ## Representation -/

structure Represents (a : Limbs) (r : Residue) : Prop where
  bounded : a.Bounded
  residue_eq : a.residue = r

namespace Represents

variable {a b : Limbs} {r s : Residue}

theorem of_eq (ha : Represents a r) (h : r = s) : Represents a s :=
  h ▸ ha

theorem zero : Represents .zero 0 :=
  ⟨bounded_zero, residue_zero⟩

theorem one : Represents .one 1 :=
  ⟨bounded_one, residue_one⟩

theorem edwardsD : Represents .edwardsD Residue.edwardsD :=
  ⟨bounded_edwardsD, residue_edwardsD⟩

theorem edwardsD2 : Represents .edwardsD2 (2 * Residue.edwardsD) :=
  ⟨bounded_edwardsD2, residue_edwardsD2⟩

theorem sqrtMinusOne : Represents .sqrtMinusOne Residue.root :=
  ⟨bounded_sqrtMinusOne, residue_sqrtMinusOne⟩

theorem add (ha : Represents a r) (hb : Represents b s) : Represents (a + b) (r + s) :=
  ⟨bounded_add a b, by rw [residue_add ha.bounded hb.bounded, ha.residue_eq, hb.residue_eq]⟩

theorem sub (ha : Represents a r) (hb : Represents b s) : Represents (a - b) (r - s) :=
  ⟨bounded_sub a b, by rw [residue_sub ha.bounded hb.bounded, ha.residue_eq, hb.residue_eq]⟩

theorem neg (ha : Represents a r) : Represents (-a) (-r) :=
  ⟨bounded_neg a, by rw [residue_neg ha.bounded, ha.residue_eq]⟩

theorem mul (ha : Represents a r) (hb : Represents b s) : Represents (a * b) (r * s) :=
  ⟨(mul_spec ha.bounded hb.bounded).1,
    by rw [(mul_spec ha.bounded hb.bounded).2, ha.residue_eq, hb.residue_eq]⟩

theorem square (ha : Represents a r) : Represents a.square (r ^ 2) := by
  rw [pow_two]
  exact ha.mul ha

theorem select (ha : Represents a r) (hb : Represents b s) (choice : Bool) :
    Represents (select a b choice) (if choice then s else r) := by
  cases choice with
  | false => exact ha
  | true => exact hb

end Represents

end Limbs

end LedgerTx.Curve
