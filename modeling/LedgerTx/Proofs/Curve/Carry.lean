import LedgerTx.Proofs.Curve.Checked

/-!
# Carrying any words

All five carries are taken at once, of any five words.  A limb above the
lowest takes less than `2 ^ 13` from the limb below it.  The lowest takes as
much from the top one times 19, and so stays under the bound of the others
only when the top one is not too large.  In sums, differences and encodings
of bounded limbs it is not.  The value modulo the prime and the canonical
bytes are right for any words.
-/

namespace LedgerTx.Curve

namespace Limbs

structure Tight (a : Limbs) : Prop where
  l0 : a.l0.toNat < 2 ^ 51 + 2 ^ 13
  l1 : a.l1.toNat < 2 ^ 51 + 2 ^ 13
  l2 : a.l2.toNat < 2 ^ 51 + 2 ^ 13
  l3 : a.l3.toNat < 2 ^ 51 + 2 ^ 13
  l4 : a.l4.toNat < 2 ^ 51 + 2 ^ 13

variable {a b : Limbs}

theorem toNat_add_carried_lt (low high : UInt64) :
    ((low &&& mask) + high >>> 51).toNat < 2 ^ 51 + 2 ^ 13 := by
  have hhigh := high.toNat_lt
  rw [toNat_add_carried]
  omega

theorem toNat_add_returned_lt (low high : UInt64) :
    ((low &&& mask) + (high >>> 51) * 19).toNat < 2 ^ 51 + 19 * 2 ^ 13 := by
  have hhigh := high.toNat_lt
  rw [toNat_add_returned]
  omega

/-- Only the lowest limb can leave the bound, by what the top one returns to it. -/
theorem tight_carry_iff :
    a.carry.Tight ↔ a.l0.toNat % 2 ^ 51 + a.l4.toNat / 2 ^ 51 * 19 < 2 ^ 51 + 2 ^ 13 := by
  constructor
  · intro h
    have hlow := h.l0
    rwa [carry, toNat_add_returned] at hlow
  · intro h
    refine ⟨?_, toNat_add_carried_lt _ _, toNat_add_carried_lt _ _, toNat_add_carried_lt _ _,
      toNat_add_carried_lt _ _⟩
    rwa [carry, toNat_add_returned]

theorem tight_carry_of_lt (h : a.l4.toNat < 432 * 2 ^ 51) : a.carry.Tight := by
  rw [tight_carry_iff]
  omega

/-- The lowest limb stays under the bound, whatever it is, for just these top limbs. -/
theorem tight_carry_forall_iff :
    (∀ low, (carry { a with l0 := low }).Tight) ↔ a.l4.toNat < 432 * 2 ^ 51 := by
  constructor
  · intro h
    -- The largest lowest limb leaves the least room for what is returned to it.
    have hlargest := tight_carry_iff.mp (h mask)
    have hmask : mask.toNat = 2 ^ 51 - 1 := rfl
    dsimp only at hlargest
    rw [hmask] at hlargest
    omega
  · intro h low
    exact tight_carry_of_lt h

/-! ## Carries of bounded limbs -/

theorem Bounded.tight_carry (ha : a.Bounded) : a.carry.Tight := by
  have htop := ha.l4
  exact tight_carry_of_lt (by omega)

theorem Bounded.tight_add (ha : a.Bounded) (hb : b.Bounded) : (a + b).Tight := by
  have htop := ha.l4
  have htop' := hb.l4
  apply tight_carry_of_lt
  rw [toNat_add (by omega)]
  omega

/-- The constant that a difference adds to the top limb is sixteen times 51 bits. -/
theorem Bounded.tight_sub (ha : a.Bounded) (hb : b.Bounded) : (a - b).Tight := by
  have htop := ha.l4
  have htop' := hb.l4
  have hconst : (36028797018963952 : UInt64).toNat = 36028797018963952 := rfl
  apply tight_carry_of_lt
  dsimp only
  rw [toNat_add_sub] <;> rw [hconst] <;> omega

/-! ## Any words -/

/--
Of any five words the carries are taken without an overflow, and the bytes
are written without one.  The carried limbs above the lowest exceed 51 bits
by less than `2 ^ 13`, the lowest by less than 19 times as much; it is under
the bound of the others for just the top limbs below `432 * 2 ^ 51`, and so
in what is carried for bounded limbs.  The value modulo the prime is kept,
and the bytes are its canonical ones.
-/
theorem carried_and_encoded (a : Limbs) :
    Checked.carry a = some a.carry
      ∧ (a.carry.l0.toNat < 2 ^ 51 + 19 * 2 ^ 13 ∧ a.carry.l1.toNat < 2 ^ 51 + 2 ^ 13
        ∧ a.carry.l2.toNat < 2 ^ 51 + 2 ^ 13 ∧ a.carry.l3.toNat < 2 ^ 51 + 2 ^ 13
        ∧ a.carry.l4.toNat < 2 ^ 51 + 2 ^ 13)
      ∧ ((∀ low, (carry { a with l0 := low }).Tight) ↔ a.l4.toNat < 432 * 2 ^ 51)
      ∧ (∀ b : Limbs, a.Bounded → b.Bounded →
        a.carry.Tight ∧ (a + b).Tight ∧ (a - b).Tight)
      ∧ a.carry.value % prime = a.value % prime
      ∧ Checked.toBytes a = some a.toBlock.bytes ∧ a.toBlock.toNat = a.value % prime := by
  have hvalue : a.carry.value % prime = a.value % prime := by
    rw [← a.value_carry, Nat.add_mul_mod_self_left]
  have hbytes : a.toBlock.toNat = a.value % prime := by
    rw [Checked.toNat_toBlock, residue, ZMod.val_natCast]
  exact ⟨Checked.carry_eq a,
    ⟨toNat_add_returned_lt _ _, toNat_add_carried_lt _ _, toNat_add_carried_lt _ _,
      toNat_add_carried_lt _ _, toNat_add_carried_lt _ _⟩,
    tight_carry_forall_iff,
    fun _ ha hb => ⟨ha.tight_carry, ha.tight_add hb, ha.tight_sub hb⟩,
    hvalue, Checked.toBytes_eq a, hbytes⟩

def largest : Limbs :=
  ⟨4503599627370495, 4503599627370495, 4503599627370495, 4503599627370495, 4503599627370495⟩

theorem carried_and_encoded_largest :
    largest.Bounded ∧ largest.carry.Tight ∧ (largest + largest).Tight
      ∧ (largest - largest).Tight ∧ largest.toBlock.toNat = largest.value % prime := by
  have hbounded : largest.Bounded := by decide
  obtain ⟨-, -, -, htight, -, -, hbytes⟩ := carried_and_encoded largest
  obtain ⟨hcarry, hadd, hsub⟩ := htight largest hbounded hbounded
  exact ⟨hbounded, hcarry, hadd, hsub, hbytes⟩

/-- A full top limb returns too much to a full lowest one for the bound of the others. -/
theorem carry_over_bound :
    ¬ (carry ⟨2251799813685247, 0, 0, 0, 18446744073709551615⟩).l0.toNat < 2 ^ 51 + 2 ^ 13 := by
  decide

end Limbs

end LedgerTx.Curve
