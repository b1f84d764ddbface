import LedgerTx.Proofs.Curve.Checked

/-!
# Computations in the field

A value that a run of field operations arrives at is described by the tree of
the operations behind it.  The limbs that the operations give, the limbs that
the overflow-checked operations give and the exact residue are three readings
of one tree; they agree on every tree.
-/

namespace LedgerTx.Curve

open Limbs Residue

/-- A field element by the operations that lead to it. -/
inductive Computation where
  | ofBlock (block : Block 32)
  | zero
  | one
  | edwardsD
  | edwardsD2
  | sqrtMinusOne
  | add (s t : Computation)
  | sub (s t : Computation)
  | neg (s : Computation)
  | mul (s t : Computation)
  | square (s : Computation)
  | pow2k (s : Computation) (k : Nat)
  | invert (s : Computation)
  | select (s t : Computation) (choice : Bool)
  | ratioRoot (s t : Computation)

namespace Computation

def limbs : Computation → Limbs
  | ofBlock block => .ofBlock block
  | zero => .zero
  | one => .one
  | edwardsD => .edwardsD
  | edwardsD2 => .edwardsD2
  | sqrtMinusOne => .sqrtMinusOne
  | add s t => s.limbs + t.limbs
  | sub s t => s.limbs - t.limbs
  | neg s => -s.limbs
  | mul s t => s.limbs * t.limbs
  | square s => s.limbs.square
  | pow2k s k => s.limbs.pow2k k
  | invert s => s.limbs.invert
  | select s t choice => Limbs.select s.limbs t.limbs choice
  | ratioRoot s t => (s.limbs.sqrtRatio t.limbs).2

/-- What the operations compute that stop at the first overflow. -/
def checked : Computation → Option Limbs
  | ofBlock block => Checked.ofBlock block
  | zero => some .zero
  | one => some .one
  | edwardsD => some .edwardsD
  | edwardsD2 => some .edwardsD2
  | sqrtMinusOne => some .sqrtMinusOne
  | add s t => do
      let a ← s.checked
      let b ← t.checked
      Checked.add a b
  | sub s t => do
      let a ← s.checked
      let b ← t.checked
      Checked.sub a b
  | neg s => do
      let a ← s.checked
      Checked.neg a
  | mul s t => do
      let a ← s.checked
      let b ← t.checked
      Checked.mul a b
  | square s => do
      let a ← s.checked
      Checked.square a
  | pow2k s k => do
      let a ← s.checked
      Checked.pow2k a k
  | invert s => do
      let a ← s.checked
      Checked.invert a
  | select s t choice => do
      let a ← s.checked
      let b ← t.checked
      return Checked.select a b choice
  | ratioRoot s t => do
      let a ← s.checked
      let b ← t.checked
      let ratio ← Checked.sqrtRatio a b
      return ratio.2

noncomputable def residue : Computation → Residue
  | ofBlock block => (block.toNat % 2 ^ 255 : Nat)
  | zero => 0
  | one => 1
  | edwardsD => -121665 / 121666
  | edwardsD2 => 2 * (-121665 / 121666)
  | sqrtMinusOne => 2 ^ ((prime - 1) / 4)
  | add s t => s.residue + t.residue
  | sub s t => s.residue - t.residue
  | neg s => -s.residue
  | mul s t => s.residue * t.residue
  | square s => s.residue ^ 2
  | pow2k s k => s.residue ^ 2 ^ max k 1
  | invert s => s.residue ^ (prime - 2)
  | select s t choice => if choice then t.residue else s.residue
  | ratioRoot s t => Residue.ratioRoot s.residue t.residue

theorem represents_ofBlock (block : Block 32) :
    (Limbs.ofBlock block).Represents (block.toNat % 2 ^ 255 : Nat) := by
  refine ⟨bounded_ofNat _, ?_⟩
  have hlow : Limbs.ofNat block.toNat = Limbs.ofNat (block.toNat % 2 ^ 255) := by
    unfold Limbs.ofNat
    congr 2 <;> omega
  rw [Limbs.residue, Limbs.ofBlock, hlow, value_ofNat (Nat.mod_lt _ (by decide))]

theorem represents_limbs (s : Computation) : s.limbs.Represents s.residue := by
  induction s with
  | ofBlock block => exact represents_ofBlock block
  | zero => exact .zero
  | one => exact .one
  | edwardsD => exact Represents.edwardsD.of_eq edwardsD_eq_div
  | edwardsD2 =>
      refine Represents.edwardsD2.of_eq ?_
      rw [edwardsD_eq_div]
      rfl
  | sqrtMinusOne => exact Represents.sqrtMinusOne.of_eq root_eq_pow
  | add s t ihs iht => exact ihs.add iht
  | sub s t ihs iht => exact ihs.sub iht
  | neg s ih => exact ih.neg
  | mul s t ihs iht => exact ihs.mul iht
  | square s ih => exact ih.square
  | pow2k s k ih =>
      rw [← pow_one s.residue] at ih
      refine (ih.squarings (max k 1)).of_eq ?_
      rw [one_mul]
      rfl
  | invert s ih =>
      refine ih.invert.of_eq ?_
      have hexponent : 2 ^ 255 - 21 = prime - 2 := by decide
      rw [hexponent]
      rfl
  | select s t choice ihs iht => exact ihs.select iht choice
  | ratioRoot s t ihs iht => exact (sqrtRatio_exact ihs iht).2

/-- No operation behind a value overflows. -/
theorem checked_eq (s : Computation) : s.checked = some s.limbs := by
  have hbounded (s : Computation) := s.represents_limbs.bounded
  induction s with
  | ofBlock block => exact Checked.ofBlock_eq block
  | zero => rfl
  | one => rfl
  | edwardsD => rfl
  | edwardsD2 => rfl
  | sqrtMinusOne => rfl
  | add s t ihs iht =>
      rw [checked, bind_of_eq_some ihs, bind_of_eq_some iht]
      exact Checked.add_eq (hbounded s) (hbounded t)
  | sub s t ihs iht =>
      rw [checked, bind_of_eq_some ihs, bind_of_eq_some iht]
      exact Checked.sub_eq (hbounded s) (hbounded t)
  | neg s ih =>
      rw [checked, bind_of_eq_some ih]
      exact Checked.neg_eq (hbounded s)
  | mul s t ihs iht =>
      rw [checked, bind_of_eq_some ihs, bind_of_eq_some iht]
      exact Checked.mul_eq (hbounded s) (hbounded t)
  | square s ih =>
      rw [checked, bind_of_eq_some ih]
      exact Checked.square_eq (hbounded s)
  | pow2k s k ih =>
      rw [checked, bind_of_eq_some ih]
      exact Checked.pow2k_eq (hbounded s) k
  | invert s ih =>
      rw [checked, bind_of_eq_some ih]
      exact Checked.invert_eq (hbounded s)
  | select s t choice ihs iht =>
      rw [checked, bind_of_eq_some ihs, bind_of_eq_some iht, Checked.select_eq]
      rfl
  | ratioRoot s t ihs iht =>
      rw [checked, bind_of_eq_some ihs, bind_of_eq_some iht,
        bind_of_eq_some (Checked.sqrtRatio_eq (hbounded s) (hbounded t))]
      rfl

/-- What holds of the values that two computations arrive at. -/
structure Exact (s t : Computation) : Prop where
  bounded : s.limbs.l0.toNat < 2 ^ 52 ∧ s.limbs.l1.toNat < 2 ^ 52 ∧ s.limbs.l2.toNat < 2 ^ 52
    ∧ s.limbs.l3.toNat < 2 ^ 52 ∧ s.limbs.l4.toNat < 2 ^ 52
  checked : s.checked = some s.limbs
  value : (s.limbs.value : Residue) = s.residue
  flag : Checked.sqrtRatio s.limbs t.limbs = some (s.limbs.sqrtRatio t.limbs)
    ∧ ((s.limbs.sqrtRatio t.limbs).1 = true ↔ HasRatioRoot s.residue t.residue)
  toBytes : Checked.toBytes s.limbs = some s.limbs.toBlock.bytes
  toBlock : s.limbs.toBlock.toNat < prime ∧ s.limbs.toBlock.toNat.testBit 255 = false
    ∧ (s.limbs.toBlock.toNat : Residue) = s.residue
  unique : ∀ block : Block 32, block.toNat < prime → (block.toNat : Residue) = s.residue →
    block = s.limbs.toBlock
  same : Checked.same s.limbs t.limbs = some (s.limbs.same t.limbs)
    ∧ (s.limbs.same t.limbs = true ↔ s.limbs.value % prime = t.limbs.value % prime)

/-- Field arithmetic on limbs is exact, whatever is computed. -/
theorem exact (s t : Computation) : Exact s t := by
  have hs := s.represents_limbs
  have ht := t.represents_limbs
  obtain ⟨h0, h1, h2, h3, h4⟩ := hs.bounded
  have hblock : s.limbs.toBlock.toNat = s.residue.val := by
    rw [Checked.toNat_toBlock, hs.residue_eq]
  have hlt := ZMod.val_lt s.residue
  refine
    { bounded := ⟨h0, h1, h2, h3, h4⟩
      checked := s.checked_eq
      value := hs.residue_eq
      flag := ⟨Checked.sqrtRatio_eq hs.bounded ht.bounded, (sqrtRatio_exact hs ht).1⟩
      toBytes := Checked.toBytes_eq _
      toBlock := ⟨hblock ▸ hlt, ?_, ?_⟩
      unique := fun block hblt hbres => ?_
      same := ⟨Checked.same_eq _ _, ?_⟩ }
  · rw [hblock]
    exact Nat.testBit_lt_two_pow (Residue.val_lt_two_pow _)
  · rw [hblock, ZMod.natCast_zmod_val]
  · apply Block.eq_of_toNat_eq
    rw [hblock, ← hbres, ZMod.val_natCast, Nat.mod_eq_of_lt hblt]
  · rw [same_eq_true]
    exact ZMod.natCast_eq_natCast_iff' _ _ _

end Computation

end LedgerTx.Curve
