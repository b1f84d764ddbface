import LedgerTx.Proofs.Curve.Compressed

/-!
# Points that the operations reach

Whatever compressed forms are read and however the operations are nested,
the coordinates stand for a point of the Edwards group.  The formulas for
sums and multiples therefore hold of every point at hand, also outside the
subgroup of the base point.
-/

namespace LedgerTx.Curve

open Limbs

namespace Point

/--
The points at hand: what an accepted compressed form gives, the two named
points, and whatever the group operations make of these.
-/
inductive Reachable : Point → Prop where
  | decoded {block : Block 32} {p : Point} (accepted : decode? block = some p) : Reachable p
  | base : Reachable base
  | identity : Reachable identity
  | add {p q : Point} (hp : Reachable p) (hq : Reachable q) : Reachable (p.add q)
  | sub {p q : Point} (hp : Reachable p) (hq : Reachable q) : Reachable (p.sub q)
  | neg {p : Point} (hp : Reachable p) : Reachable p.neg
  | double {p : Point} (hp : Reachable p) : Reachable p.double
  | mul {p : Point} (hp : Reachable p) {n : Nat} (hn : n < 2 ^ 256) : Reachable (p.mul n)
  | mulBase {n : Nat} (hn : n < 2 ^ 256) : Reachable (mulBase n)
  | mulCofactor {p : Point} (hp : Reachable p) : Reachable p.mulCofactor

def affine (p : Point) : Residue × Residue :=
  (p.x.residue / p.z.residue, p.y.residue / p.z.residue)

section Coordinates

variable {p q : Point} {P Q : Affine}

theorem Is.z_ne_zero (hp : p.Is P) : p.z.residue ≠ 0 := by
  obtain ⟨z, hz, -, -, hpz, -⟩ := hp
  rw [hpz.residue_eq]
  exact hz

theorem Is.affine_eq (hp : p.Is P) : p.affine = (P.x, P.y) := by
  obtain ⟨z, hz, hpx, hpy, hpz, -⟩ := hp
  rw [affine, hpx.residue_eq, hpy.residue_eq, hpz.residue_eq, mul_div_cancel_right₀ _ hz,
    mul_div_cancel_right₀ _ hz]

theorem Is.x_mul_y (hp : p.Is P) :
    p.x.residue * p.y.residue = p.z.residue * p.t.residue := by
  obtain ⟨z, -, hpx, hpy, hpz, hpt⟩ := hp
  rw [hpx.residue_eq, hpy.residue_eq, hpz.residue_eq, hpt.residue_eq]
  ring

theorem Is.isOnCurve (hp : p.Is P) : p.isOnCurve = true := by
  obtain ⟨z, -, hpx, hpy, hpz, hpt⟩ := hp
  have hcurve := P.onCurve
  unfold OnCurve at hcurve
  have hleft := (hpy.square.sub hpx.square).mul hpz.square
  have hright := hpz.square.square.add
    ((Limbs.Represents.edwardsD.mul hpt.square).mul hpz.square)
  unfold Point.isOnCurve
  rw [Bool.and_eq_true, hleft.same_iff hright, (hpx.mul hpy).same_iff (hpt.mul hpz)]
  constructor
  · linear_combination z ^ 4 * hcurve
  · ring

theorem Is.same_iff_affine_eq (hp : p.Is P) (hq : q.Is Q) :
    p.same q = true ↔ p.affine = q.affine := by
  rw [hp.same_iff hq, hp.affine_eq, hq.affine_eq, Prod.mk.injEq, Affine.ext_iff]

theorem Is.mulCofactor (hp : p.Is P) : p.mulCofactor.Is (8 • P) := by
  have height : 8 • P = P + P + (P + P) + (P + P + (P + P)) := by abel
  rw [height]
  exact hp.double.double.double

end Coordinates

theorem Reachable.exists_is {p : Point} (hp : Reachable p) : ∃ P, p.Is P := by
  induction hp with
  | decoded accepted =>
      obtain ⟨P, -, hP⟩ := exists_encode_of_decode? accepted
      exact ⟨P, hP⟩
  | base => exact ⟨_, base_is⟩
  | identity => exact ⟨_, identity_is⟩
  | add _ _ ihp ihq =>
      obtain ⟨P, hP⟩ := ihp
      obtain ⟨Q, hQ⟩ := ihq
      exact ⟨_, hP.add hQ⟩
  | sub _ _ ihp ihq =>
      obtain ⟨P, hP⟩ := ihp
      obtain ⟨Q, hQ⟩ := ihq
      exact ⟨_, hP.sub hQ⟩
  | neg _ ih =>
      obtain ⟨P, hP⟩ := ih
      exact ⟨_, hP.neg⟩
  | double _ ih =>
      obtain ⟨P, hP⟩ := ih
      exact ⟨_, hP.double⟩
  | mul _ hn ih =>
      obtain ⟨P, hP⟩ := ih
      exact ⟨_, hP.mul hn⟩
  | mulBase hn => exact ⟨_, mulBase_is hn⟩
  | mulCofactor _ ih =>
      obtain ⟨P, hP⟩ := ih
      exact ⟨_, hP.mulCofactor⟩

/-! ## The group law -/

/--
What the group law says of two points whose affine coordinates are given.
-/
structure EdwardsLaw (p q : Point) (x₁ y₁ x₂ y₂ : Residue) : Prop where
  z_ne_zero : p.z.residue ≠ 0
  isOnCurve : p.isOnCurve = true
  curve : y₁ ^ 2 - x₁ ^ 2 = 1 + Residue.edwardsD * x₁ ^ 2 * y₁ ^ 2
  x_mul_y : p.x.residue * p.y.residue = p.z.residue * p.t.residue
  plus_ne_zero : 1 + Residue.edwardsD * x₁ * x₂ * y₁ * y₂ ≠ 0
  minus_ne_zero : 1 - Residue.edwardsD * x₁ * x₂ * y₁ * y₂ ≠ 0
  add_affine : (p.add q).affine
    = ((x₁ * y₂ + x₂ * y₁) / (1 + Residue.edwardsD * x₁ * x₂ * y₁ * y₂),
        (y₁ * y₂ + x₁ * x₂) / (1 - Residue.edwardsD * x₁ * x₂ * y₁ * y₂))
  double_affine : p.double.affine = (p.add p).affine
  double_same : p.double.same (p.add p) = true
  sub_eq : p.sub q = p.add q.neg
  neg_affine : q.neg.affine = (-x₂, y₂)
  sub_self_affine : (p.sub p).affine = (0, 1)
  sub_self_same : (p.sub p).same Point.identity = true

/--
Points at hand lie on the curve with a nonzero denominator, and the
operations on them are the group law, without a special case.
-/
theorem Reachable.edwardsLaw {p q : Point} (hp : Reachable p) (hq : Reachable q)
    {x₁ y₁ x₂ y₂ : Residue} (hpc : p.affine = (x₁, y₁)) (hqc : q.affine = (x₂, y₂)) :
    EdwardsLaw p q x₁ y₁ x₂ y₂ := by
  obtain ⟨P, hP⟩ := hp.exists_is
  obtain ⟨Q, hQ⟩ := hq.exists_is
  rw [hP.affine_eq, Prod.mk.injEq] at hpc
  rw [hQ.affine_eq, Prod.mk.injEq] at hqc
  obtain ⟨rfl, rfl⟩ := hpc
  obtain ⟨rfl, rfl⟩ := hqc
  have hsum := hP.add hP
  have hcancel := hP.sub hP
  rw [sub_self] at hcancel
  exact
    { z_ne_zero := hP.z_ne_zero
      isOnCurve := hP.isOnCurve
      curve := P.onCurve
      x_mul_y := hP.x_mul_y
      plus_ne_zero := one_add_skew_ne_zero P.onCurve Q.onCurve
      minus_ne_zero := one_sub_skew_ne_zero P.onCurve Q.onCurve
      add_affine := (hP.add hQ).affine_eq
      double_affine := hP.double.affine_eq.trans hsum.affine_eq.symm
      double_same := (hP.double.same_iff hsum).mpr rfl
      sub_eq := rfl
      neg_affine := hQ.neg.affine_eq
      sub_self_affine := hcancel.affine_eq
      sub_self_same := (hcancel.same_iff identity_is).mpr rfl }

/-- The zero bytes are a point of order four, outside the subgroup of the base point. -/
theorem decode?_zero : decode? Block.zero = some ⟨sqrtMinusOne, .zero, .one, .zero⟩ := by
  decide +kernel

theorem Reachable.edwardsLaw_orderFour :
    decode? Block.zero = some ⟨sqrtMinusOne, .zero, .one, .zero⟩
      ∧ EdwardsLaw ⟨sqrtMinusOne, .zero, .one, .zero⟩ Point.base (Residue.root / 1) (0 / 1)
        (Point.base.x.residue / 1) (Point.base.y.residue / 1) := by
  refine ⟨decode?_zero, Reachable.edwardsLaw (.decoded decode?_zero) .base ?_ ?_⟩
  · rw [affine, residue_sqrtMinusOne, residue_zero, residue_one]
  · rw [affine, show Point.base.z = .one from rfl, residue_one]

/-! ## Multiples -/

/-- What multiples have to do with sums and products of the scalars. -/
structure ScalarAction (p q : Point) (m n : Nat) : Prop where
  same_iff : p.same q = true ↔ p.affine = q.affine
  zero : (p.mul 0).same Point.identity = true
  one : (p.mul 1).same p = true
  add : m + n < 2 ^ 256 → (p.mul (m + n)).same ((p.mul m).add (p.mul n)) = true
  mul : m * n < 2 ^ 256 → ((p.mul m).mul n).same (p.mul (m * n)) = true
  distrib : ((p.add q).mul n).same ((p.mul n).add (q.mul n)) = true
  order : (Point.mulBase Scalar.order).same Point.identity = true
  mod_order : m % Scalar.order = n % Scalar.order →
    (Point.mulBase m).same (Point.mulBase n) = true

/-- The numbers below `2 ^ 256` act on the points at hand as integers act on a group. -/
theorem Reachable.scalarAction {p q : Point} (hp : Reachable p) (hq : Reachable q) {m n : Nat}
    (hm : m < 2 ^ 256) (hn : n < 2 ^ 256) : ScalarAction p q m n := by
  obtain ⟨P, hP⟩ := hp.exists_is
  obtain ⟨Q, hQ⟩ := hq.exists_is
  have hzero : (0 : Nat) < 2 ^ 256 := by decide
  have hone : (1 : Nat) < 2 ^ 256 := by decide
  have horder : Scalar.order < 2 ^ 256 := by decide
  refine
    { same_iff := hP.same_iff_affine_eq hQ
      zero := ((hP.mul hzero).same_iff identity_is).mpr (zero_nsmul P)
      one := ((hP.mul hone).same_iff hP).mpr (one_nsmul P)
      add := fun hsum => ?_
      mul := fun hproduct => ?_
      distrib := ?_
      order := ((mulBase_is horder).same_iff identity_is).mpr order_nsmul_base
      mod_order := fun hmod => ?_ }
  · exact ((hP.mul hsum).same_iff ((hP.mul hm).add (hP.mul hn))).mpr (add_nsmul P m n)
  · exact (((hP.mul hm).mul hn).same_iff (hP.mul hproduct)).mpr (mul_nsmul P m n).symm
  · exact (((hP.add hQ).mul hn).same_iff ((hP.mul hn).add (hQ.mul hn))).mpr (nsmul_add P Q n)
  · apply ((mulBase_is hm).same_iff (mulBase_is hn)).mpr
    rw [← Affine.mod_order_nsmul_base m, hmod, Affine.mod_order_nsmul_base]

theorem Reachable.scalarAction_orderFour :
    ScalarAction ⟨sqrtMinusOne, .zero, .one, .zero⟩ Point.base (2 ^ 128 - 1) (2 ^ 128 - 1) :=
  Reachable.scalarAction (.decoded decode?_zero) .base (by decide) (by decide)

/-! ## Compressed forms -/

/--
Points at hand, compared by their affine coordinates, and accepted strings
correspond one to one.  Accepted are the strings with a `y` below the prime
that has an `x` on the curve, where an odd `x` is not asked for when `x` is
zero.  An accepted string is the compressed form of the point that is read
from it, whose `x` has the parity in bit 255.
-/
theorem compression_bijective :
    (∀ p, Reachable p → ∃ q, decode? p.encode = some q ∧ q.same p = true)
    ∧ (∀ p q, Reachable p → Reachable q → (p.same q = true ↔ p.encode = q.encode))
    ∧ (∀ block : Block 32, (∃ p, decode? block = some p)
      ↔ block.toNat % 2 ^ 255 < prime ∧ ∃ x y : Residue, y = (block.toNat % 2 ^ 255 : Nat)
        ∧ -x ^ 2 + y ^ 2 = 1 + Residue.edwardsD * x ^ 2 * y ^ 2
        ∧ ¬(x = 0 ∧ block.toNat.testBit 255 = true))
    ∧ ∀ (block : Block 32) (p : Point), decode? block = some p →
      p.encode = block ∧ (p.affine.1.val % 2 = 1 ↔ block.toNat.testBit 255 = true) := by
  refine ⟨fun p hp => ?_, fun p q hp hq => ?_, fun block => ⟨?_, ?_⟩, fun block p h => ?_⟩
  · obtain ⟨P, hP⟩ := hp.exists_is
    obtain ⟨q, hq, his⟩ := decode?_encode P
    rw [hP.encode_eq]
    exact ⟨q, hq, (his.same_iff hP).mpr rfl⟩
  · obtain ⟨P, hP⟩ := hp.exists_is
    obtain ⟨Q, hQ⟩ := hq.exists_is
    rw [hP.same_iff hQ, hP.encode_eq_iff hQ]
  · rintro ⟨p, h⟩
    obtain ⟨hlt, x, hcurve, hzero⟩ := onCurve_of_decode? h
    refine ⟨hlt, x, _, rfl, (neg_add_eq_sub _ _).trans hcurve, ?_⟩
    rintro ⟨hx, hodd⟩
    exact Bool.noConfusion ((hzero hx).symm.trans hodd)
  · rintro ⟨hlt, x, _, rfl, hcurve, hzero⟩
    obtain ⟨P, hP⟩ := Affine.exists_encode_eq (ZMod.val_natCast_of_lt hlt)
      ((neg_add_eq_sub _ _).symm.trans hcurve) fun hx => eq_false_of_ne_true fun hodd =>
        hzero ⟨hx, hodd⟩
    obtain ⟨p, hp, -⟩ := decode?_encode P
    exact ⟨p, hP ▸ hp⟩
  · obtain ⟨P, rfl, hP⟩ := exists_encode_of_decode? h
    rw [hP.encode_eq, hP.affine_eq, P.testBit_encode, decide_eq_true_iff]
    exact ⟨rfl, Iff.rfl⟩

theorem compression_bijective_orderFour :
    (∃ q, decode? base.encode = some q ∧ q.same base = true)
      ∧ (base.same ⟨sqrtMinusOne, .zero, .one, .zero⟩ = true
        ↔ base.encode = (⟨sqrtMinusOne, .zero, .one, .zero⟩ : Point).encode)
      ∧ (⟨sqrtMinusOne, .zero, .one, .zero⟩ : Point).encode = .zero :=
  ⟨compression_bijective.1 _ .base,
    compression_bijective.2.1 _ _ .base (.decoded decode?_zero),
    (compression_bijective.2.2.2 _ _ decode?_zero).1⟩

end Point

end LedgerTx.Curve
