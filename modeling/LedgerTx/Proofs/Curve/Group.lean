import LedgerTx.Curve.Point
import LedgerTx.Curve.Scalar
import LedgerTx.Proofs.Curve.Edwards
import LedgerTx.Proofs.Curve.Root

/-!
# Extended points as group elements

Extended coordinates stand for an affine point of the Edwards group.  The
formulas for sums, doubles and opposites compute the group operations, so
double-and-add computes multiples, and comparison is equality of the affine
points.  The base point has the order of the scalars.
-/

namespace LedgerTx.Curve

open Residue Limbs

/-- Extended coordinates with a nonzero denominator that stand for an affine point. -/
structure Point.Represents (p : Point) (P : Affine) (scale : Residue) : Prop where
  scale_ne : scale ≠ 0
  x : p.x.Represents (P.x * scale)
  y : p.y.Represents (P.y * scale)
  z : p.z.Represents scale
  t : p.t.Represents (P.x * P.y * scale)

def Point.Is (p : Point) (P : Affine) : Prop :=
  ∃ z, p.Represents P z

namespace Point

variable {p q : Point} {P Q : Affine}

/-! ## Group operations -/

theorem identity_is : identity.Is 0 := by
  refine ⟨1, one_ne_zero, ?_, ?_, Limbs.Represents.one, ?_⟩
  · exact Limbs.Represents.zero.of_eq (by simp)
  · exact Limbs.Represents.one.of_eq (by simp)
  · exact Limbs.Represents.zero.of_eq (by simp)

theorem neg_def (p : Point) : p.neg = ⟨-p.x, p.y, p.z, -p.t⟩ := rfl

theorem Is.neg (hp : p.Is P) : p.neg.Is (-P) := by
  obtain ⟨z, hz, hpx, hpy, hpz, hpt⟩ := hp
  rw [neg_def]
  have hx := hpx.neg.of_eq (neg_mul P.x z).symm
  have ht := hpt.neg.of_eq (s := -P.x * P.y * z) (by ring)
  exact ⟨z, hz, hx, hpy, hpz, ht⟩

/-- The addition formula computes the sum, also for equal and opposite points. -/
theorem Is.add (hp : p.Is P) (hq : q.Is Q) : (p.add q).Is (P + Q) := by
  obtain ⟨z, hz, hpx, hpy, hpz, hpt⟩ := hp
  obtain ⟨w, hw, hqx, hqy, hqz, hqt⟩ := hq
  have hplus := one_add_skew_ne_zero P.onCurve Q.onCurve
  have hminus := one_sub_skew_ne_zero P.onCurve Q.onCurve
  have ha := (hpy.sub hpx).mul (hqy.sub hqx)
  have hb := (hpy.add hpx).mul (hqy.add hqx)
  have hc := (hpt.mul Limbs.Represents.edwardsD2).mul hqt
  have hd := (hpz.mul hqz).add (hpz.mul hqz)
  obtain ⟨k, hk⟩ : ∃ k, k = skew P.x P.y Q.x Q.y := ⟨_, rfl⟩
  rw [← hk] at hplus hminus
  have he := (hb.sub ha).of_eq (s := 2 * (z * w) * (P.x * Q.y + Q.x * P.y)) (by ring)
  have hf := (hd.sub hc).of_eq (s := 2 * (z * w) * (1 - k)) (by rw [hk, skew]; ring)
  have hg := (hd.add hc).of_eq (s := 2 * (z * w) * (1 + k)) (by rw [hk, skew]; ring)
  have hh := (hb.add ha).of_eq (s := 2 * (z * w) * (P.y * Q.y + P.x * Q.x)) (by ring)
  have hscale : 2 * (z * w) ≠ 0 := mul_ne_zero two_ne (mul_ne_zero hz hw)
  have hx : (P + Q).x * (1 + k) = P.x * Q.y + Q.x * P.y := by
    rw [Affine.add_x, sumX, ← hk, div_mul_cancel₀ _ hplus]
  have hy : (P + Q).y * (1 - k) = P.y * Q.y + P.x * Q.x := by
    rw [Affine.add_y, sumY, ← hk, div_mul_cancel₀ _ hminus]
  refine ⟨_, mul_ne_zero (mul_ne_zero hscale hminus) (mul_ne_zero hscale hplus),
    (he.mul hf).of_eq ?_, (hg.mul hh).of_eq ?_, hf.mul hg, (he.mul hh).of_eq ?_⟩
  · rw [← hx]
    ring
  · rw [← hy]
    ring
  · rw [← hx, ← hy]
    ring

/-- The doubling formula agrees with the sum by the curve equation. -/
theorem Is.double (hp : p.Is P) : p.double.Is (P + P) := by
  obtain ⟨z, hz, hpx, hpy, hpz, hpt⟩ := hp
  have hplus := one_add_skew_ne_zero P.onCurve P.onCurve
  have hminus := one_sub_skew_ne_zero P.onCurve P.onCurve
  have hcurve := P.onCurve
  unfold OnCurve at hcurve
  have hc := hpz.square.add hpz.square
  have hd := hpx.square.neg
  obtain ⟨k, hk⟩ : ∃ k, k = skew P.x P.y P.x P.y := ⟨_, rfl⟩
  rw [← hk] at hplus hminus
  have hcurve : P.y ^ 2 - P.x ^ 2 = 1 + k := by
    rw [hcurve, hk, skew]
    ring
  have he := ((hpx.add hpy).square.sub hpx.square |>.sub hpy.square).of_eq
    (s := z ^ 2 * (P.x * P.y + P.x * P.y)) (by ring)
  have hgr := hd.add hpy.square
  have hg := hgr.of_eq (s := z ^ 2 * (1 + k)) (by rw [← hcurve]; ring)
  have hf := (hgr.sub hc).of_eq (s := -(z ^ 2 * (1 - k)))
    (by linear_combination z ^ 2 * hcurve)
  have hh := (hd.sub hpy.square).of_eq (s := -(z ^ 2 * (P.y * P.y + P.x * P.x))) (by ring)
  have hscale : z ^ 2 ≠ 0 := pow_ne_zero 2 hz
  have hx : (P + P).x * (1 + k) = P.x * P.y + P.x * P.y := by
    rw [Affine.add_x, sumX, ← hk, div_mul_cancel₀ _ hplus]
  have hy : (P + P).y * (1 - k) = P.y * P.y + P.x * P.x := by
    rw [Affine.add_y, sumY, ← hk, div_mul_cancel₀ _ hminus]
  refine ⟨_, mul_ne_zero (neg_ne_zero.mpr (mul_ne_zero hscale hminus)) (mul_ne_zero hscale hplus),
    (he.mul hf).of_eq ?_, (hg.mul hh).of_eq ?_, hf.mul hg, (he.mul hh).of_eq ?_⟩
  · rw [← hx]
    ring
  · rw [← hy]
    ring
  · rw [← hx, ← hy]
    ring

theorem Is.sub (hp : p.Is P) (hq : q.Is Q) : (p.sub q).Is (P - Q) := by
  rw [sub_eq_add_neg]
  exact hp.add hq.neg

/-- After `count` steps the accumulator holds the multiple by the leading `count` bits. -/
theorem Is.mulLeading (hp : p.Is P) {n : Nat} (hn : n < 2 ^ 256) {count : Nat}
    (hcount : count ≤ 256) : (p.mulLeading n count).Is ((n / 2 ^ (256 - count)) • P) := by
  induction count with
  | zero =>
      rw [Nat.div_eq_of_lt hn, zero_nsmul]
      exact identity_is
  | succ count ih =>
      have hdoubled := (ih (by omega)).double
      have hpower : 2 ^ (256 - count) = 2 ^ (256 - (count + 1)) * 2 := by
        rw [← pow_succ]
        congr 1
        omega
      rw [← two_nsmul, ← mul_nsmul, hpower, ← Nat.div_div_eq_div_mul] at hdoubled
      have hindex : 255 - count = 256 - (count + 1) := by omega
      rw [Point.mulLeading, hindex, Nat.testBit_eq_decide_div_mod_eq]
      generalize n / 2 ^ (256 - (count + 1)) = m at hdoubled ⊢
      split
      · rename_i hodd
        have hsum := hdoubled.add hp
        have hmod := of_decide_eq_true hodd
        have heq : m / 2 * 2 + 1 = m := by omega
        rwa [← succ_nsmul, heq] at hsum
      · rename_i heven
        have hmod : ¬m % 2 = 1 := fun h => heven (decide_eq_true h)
        have heq : m / 2 * 2 = m := by omega
        rwa [heq] at hdoubled

theorem Is.mul (hp : p.Is P) {n : Nat} (hn : n < 2 ^ 256) : (p.mul n).Is (n • P) := by
  have hall : (p.mulLeading n 256).Is ((n / 2 ^ (256 - 256)) • P) := hp.mulLeading hn le_rfl
  simpa [Point.mul] using hall

theorem Is.same_iff (hp : p.Is P) (hq : q.Is Q) : p.same q = true ↔ P = Q := by
  obtain ⟨z, hz, hpx, hpy, hpz, -⟩ := hp
  obtain ⟨w, hw, hqx, hqy, hqz, -⟩ := hq
  have hx : P.x * z * w = Q.x * w * z ↔ P.x = Q.x := by
    rw [mul_right_comm, mul_left_inj' hz, mul_left_inj' hw]
  have hy : P.y * z * w = Q.y * w * z ↔ P.y = Q.y := by
    rw [mul_right_comm, mul_left_inj' hz, mul_left_inj' hw]
  rw [same, Bool.and_eq_true, (hpx.mul hqz).same_iff (hqx.mul hpz),
    (hpy.mul hqz).same_iff (hqy.mul hpz), hx, hy, Affine.ext_iff]

/-! ## The base point -/

theorem onCurve_base : OnCurve base.x.residue base.y.residue := by
  have h : ((base.y.value ^ 2 : Nat) : Residue)
      = ((base.x.value ^ 2 + 1 + edwardsD.value * base.x.value ^ 2 * base.y.value ^ 2 : Nat) :
        Residue) :=
    (ZMod.natCast_eq_natCast_iff' _ _ _).mpr (by decide)
  push_cast at h
  unfold OnCurve Limbs.residue Residue.edwardsD
  linear_combination h

end Point

def Affine.base : Affine := ⟨_, _, Point.onCurve_base⟩

namespace Point

theorem base_is : base.Is Affine.base := by
  have ht : base.t.residue = base.x.residue * base.y.residue := by
    have h : ((base.t.value : Nat) : Residue) = ((base.x.value * base.y.value : Nat) : Residue) :=
      (ZMod.natCast_eq_natCast_iff' _ _ _).mpr (by decide)
    rw [Nat.cast_mul] at h
    exact h
  have hx : base.x.Represents base.x.residue := ⟨by decide, rfl⟩
  have hy : base.y.Represents base.y.residue := ⟨by decide, rfl⟩
  exact ⟨1, one_ne_zero, hx.of_eq (mul_one _).symm, hy.of_eq (mul_one _).symm, .one,
    ⟨by decide, ht.trans (mul_one _).symm⟩⟩

theorem mulBase_is {n : Nat} (hn : n < 2 ^ 256) : (mulBase n).Is (n • Affine.base) :=
  base_is.mul hn

/-- The order of the scalars annihilates the base point. -/
theorem order_nsmul_base : Scalar.order • Affine.base = 0 := by
  have hcomputed : (mulBase Scalar.order).same identity = true := by decide +kernel
  exact ((mulBase_is (by decide)).same_iff identity_is).mp hcomputed

end Point

theorem Affine.mod_order_nsmul_base (n : Nat) :
    (n % Scalar.order) • Affine.base = n • Affine.base :=
  (nsmul_eq_mod_nsmul n Point.order_nsmul_base).symm

end LedgerTx.Curve
