import LedgerTx.Proofs.Curve.Prime
import Mathlib.Tactic.FieldSimp
import Mathlib.Tactic.LinearCombination

/-!
# The Edwards group

The points of `-x ^ 2 + y ^ 2 = 1 + d x ^ 2 y ^ 2` in affine coordinates form
a commutative group under one rational addition law.  The law has no special
cases: its denominators never vanish, because minus one is a square among the
residues and `d` is not.
-/

namespace LedgerTx.Curve

open Residue

/-! ## The addition law -/

def OnCurve (x y : Residue) : Prop :=
  y ^ 2 - x ^ 2 = 1 + edwardsD * x ^ 2 * y ^ 2

/-- What the denominators of a sum differ from one by. -/
def skew (x₁ y₁ x₂ y₂ : Residue) : Residue :=
  edwardsD * x₁ * x₂ * y₁ * y₂

def sumX (x₁ y₁ x₂ y₂ : Residue) : Residue :=
  (x₁ * y₂ + x₂ * y₁) / (1 + skew x₁ y₁ x₂ y₂)

def sumY (x₁ y₁ x₂ y₂ : Residue) : Residue :=
  (y₁ * y₂ + x₁ * x₂) / (1 - skew x₁ y₁ x₂ y₂)

section Law

variable {x₁ y₁ x₂ y₂ x₃ y₃ : Residue}

/-- If the skew of two points were a square root of one, the curve constant would be a square. -/
theorem skew_sq_ne_one (h₁ : OnCurve x₁ y₁) (h₂ : OnCurve x₂ y₂) : skew x₁ y₁ x₂ y₂ ^ 2 ≠ 1 := by
  intro hone
  obtain ⟨ε, hε⟩ : ∃ ε, ε = edwardsD * x₁ * x₂ * y₁ * y₂ := ⟨_, rfl⟩
  rw [skew, ← hε] at hone
  have hεne : ε ≠ 0 := by
    rintro rfl
    simp at hone
  have hfirst : x₁ * y₁ ≠ 0 := by
    intro hzero
    exact hεne (by rw [hε]; linear_combination edwardsD * x₂ * y₂ * hzero)
  have hsecond : y₂ ≠ 0 := by
    intro hzero
    exact hεne (by rw [hε]; linear_combination edwardsD * x₁ * x₂ * y₁ * hzero)
  have hsquare (i : Residue) (hi : i ^ 2 = -1) :
      (i * x₁ + ε * y₁) ^ 2 = edwardsD * (x₁ * y₁ * (i * x₂ + y₂)) ^ 2 := by
    unfold OnCurve at h₁ h₂
    linear_combination (x₁ ^ 2 - edwardsD * x₁ ^ 2 * y₁ ^ 2 * x₂ ^ 2) * hi + h₁
      - edwardsD * x₁ ^ 2 * y₁ ^ 2 * h₂ + (y₁ ^ 2 - 1) * hone
      + (2 * i * x₁ * y₁ + ε + edwardsD * x₁ * x₂ * y₁ * y₂) * hε
  -- A root `i` of minus one gives a root of the constant, unless `i x₂ + y₂` vanishes.
  have hvanish (i : Residue) (hi : i ^ 2 = -1) : i * x₂ + y₂ = 0 := by
    by_contra hsum
    have hdivisor : x₁ * y₁ * (i * x₂ + y₂) ≠ 0 := mul_ne_zero hfirst hsum
    apply not_isSquare_edwardsD
    refine ⟨(i * x₁ + ε * y₁) / (x₁ * y₁ * (i * x₂ + y₂)), ?_⟩
    rw [div_mul_div_comm, eq_div_iff (mul_ne_zero hdivisor hdivisor)]
    linear_combination -hsquare i hi
  have hplus := hvanish root root_sq
  have hminus := hvanish (-root) (by rw [neg_sq, root_sq])
  have hdouble : 2 * y₂ = 0 := by linear_combination hplus + hminus
  exact mul_ne_zero two_ne hsecond hdouble

theorem one_add_skew_ne_zero (h₁ : OnCurve x₁ y₁) (h₂ : OnCurve x₂ y₂) :
    1 + skew x₁ y₁ x₂ y₂ ≠ 0 := by
  intro hzero
  apply skew_sq_ne_one h₁ h₂
  linear_combination (skew x₁ y₁ x₂ y₂ - 1) * hzero

theorem one_sub_skew_ne_zero (h₁ : OnCurve x₁ y₁) (h₂ : OnCurve x₂ y₂) :
    1 - skew x₁ y₁ x₂ y₂ ≠ 0 := by
  intro hzero
  apply skew_sq_ne_one h₁ h₂
  linear_combination -(skew x₁ y₁ x₂ y₂ + 1) * hzero

theorem OnCurve.sum (h₁ : OnCurve x₁ y₁) (h₂ : OnCurve x₂ y₂) :
    OnCurve (sumX x₁ y₁ x₂ y₂) (sumY x₁ y₁ x₂ y₂) := by
  have hx := one_add_skew_ne_zero h₁ h₂
  have hy := one_sub_skew_ne_zero h₁ h₂
  obtain ⟨t, ht⟩ : ∃ t, t = skew x₁ y₁ x₂ y₂ := ⟨_, rfl⟩
  unfold OnCurve sumX sumY
  rw [← ht] at hx hy ⊢
  field_simp
  unfold skew at ht
  unfold OnCurve at h₁ h₂
  subst ht
  grind

theorem sumX_comm (x₁ y₁ x₂ y₂ : Residue) : sumX x₁ y₁ x₂ y₂ = sumX x₂ y₂ x₁ y₁ := by
  unfold sumX skew
  congr 1 <;> ring

theorem sumY_comm (x₁ y₁ x₂ y₂ : Residue) : sumY x₁ y₁ x₂ y₂ = sumY x₂ y₂ x₁ y₁ := by
  unfold sumY skew
  congr 1 <;> ring

/-- The first coordinate of a sum whose first summand has fractions for coordinates. -/
theorem sumX_div {p q : Residue} (hp : p ≠ 0) (hq : q ≠ 0) (n m : Residue) :
    sumX (n / p) (m / q) x₃ y₃
      = (n * q * y₃ + x₃ * (m * p)) / (p * q + edwardsD * n * x₃ * m * y₃) := by
  unfold sumX skew
  rw [← mul_div_mul_left _ _ (mul_ne_zero hp hq)]
  congr 1 <;> field_simp

theorem sumY_div {p q : Residue} (hp : p ≠ 0) (hq : q ≠ 0) (n m : Residue) :
    sumY (n / p) (m / q) x₃ y₃
      = (m * p * y₃ + n * q * x₃) / (p * q - edwardsD * n * x₃ * m * y₃) := by
  unfold sumY skew
  rw [← mul_div_mul_left _ _ (mul_ne_zero hp hq)]
  congr 1 <;> field_simp

/-- The two denominators of `sumX_div` and `sumY_div` do not vanish on the curve. -/
theorem denominators_div {p q : Residue} (hp : p ≠ 0) (hq : q ≠ 0) {n m : Residue}
    (h : OnCurve (n / p) (m / q)) (h₃ : OnCurve x₃ y₃) :
    p * q + edwardsD * n * x₃ * m * y₃ ≠ 0 ∧ p * q - edwardsD * n * x₃ * m * y₃ ≠ 0 := by
  have hpq := mul_ne_zero hp hq
  have hskew : p * q * skew (n / p) (m / q) x₃ y₃ = edwardsD * n * x₃ * m * y₃ := by
    unfold skew
    field_simp
  rw [← hskew]
  constructor
  · rw [← mul_one_add]
    exact mul_ne_zero hpq (one_add_skew_ne_zero h h₃)
  · rw [← mul_one_sub]
    exact mul_ne_zero hpq (one_sub_skew_ne_zero h h₃)

/-- Associativity in the first coordinate, with the denominators multiplied out. -/
theorem cross_sumX (h₁ : OnCurve x₁ y₁) (h₂ : OnCurve x₂ y₂) (h₃ : OnCurve x₃ y₃) :
    ((x₁ * y₂ + x₂ * y₁) * (1 - skew x₁ y₁ x₂ y₂) * y₃
        + x₃ * ((y₁ * y₂ + x₁ * x₂) * (1 + skew x₁ y₁ x₂ y₂)))
      * ((1 + skew x₂ y₂ x₃ y₃) * (1 - skew x₂ y₂ x₃ y₃)
        + edwardsD * (x₂ * y₃ + x₃ * y₂) * x₁ * (y₂ * y₃ + x₂ * x₃) * y₁)
    = ((x₂ * y₃ + x₃ * y₂) * (1 - skew x₂ y₂ x₃ y₃) * y₁
        + x₁ * ((y₂ * y₃ + x₂ * x₃) * (1 + skew x₂ y₂ x₃ y₃)))
      * ((1 + skew x₁ y₁ x₂ y₂) * (1 - skew x₁ y₁ x₂ y₂)
        + edwardsD * (x₁ * y₂ + x₂ * y₁) * x₃ * (y₁ * y₂ + x₁ * x₂) * y₃) := by
  unfold OnCurve at h₁ h₂ h₃
  unfold skew
  generalize edwardsD = d at h₁ h₂ h₃ ⊢
  linear_combination
    d * x₂ * y₂ *
        (y₁ * (x₂ ^ 3 * x₃ * y₃ ^ 2 * (d * y₂ ^ 2 + 1) + y₂ ^ 3 * x₃ ^ 2 * y₃ * (d * x₂ ^ 2 - 1)
          + x₂ ^ 2 * y₂ * (y₃ ^ 3 - y₃) - x₂ * y₂ ^ 2 * (x₃ ^ 3 + x₃))
        - x₁ * (x₂ ^ 3 * x₃ ^ 2 * y₃ * (d * y₂ ^ 2 + 1) + y₂ ^ 3 * x₃ * y₃ ^ 2 * (d * x₂ ^ 2 - 1)
          + x₂ ^ 2 * y₂ * (x₃ ^ 3 + x₃) - x₂ * y₂ ^ 2 * (y₃ ^ 3 - y₃))) * h₁
      + d * x₂ * y₂ *
        ((x₁ ^ 3 + x₁) * (x₂ * x₃ ^ 2 * y₃ + y₂ * x₃ * y₃ ^ 2)
          + (y₁ ^ 3 - y₁) * (x₂ * x₃ * y₃ ^ 2 + y₂ * x₃ ^ 2 * y₃)
          - x₁ ^ 2 * y₁ * (x₂ * (x₃ ^ 3 + x₃) + y₂ * (y₃ ^ 3 - y₃))
          - x₁ * y₁ ^ 2 * (x₂ * (y₃ ^ 3 - y₃) + y₂ * (x₃ ^ 3 + x₃))) * h₂
      + d * x₂ * y₂ *
        ((x₁ ^ 3 + x₁) * (x₂ ^ 2 * y₂ * x₃ + x₂ * y₂ ^ 2 * y₃)
          - (y₁ ^ 3 - y₁) * (x₂ ^ 2 * y₂ * y₃ + x₂ * y₂ ^ 2 * x₃)
          + x₁ ^ 2 * y₁ * (x₂ ^ 3 * x₃ * (d * y₂ ^ 2 + 1) - y₂ ^ 3 * y₃ * (d * x₂ ^ 2 - 1))
          - x₁ * y₁ ^ 2 * (x₂ ^ 3 * y₃ * (d * y₂ ^ 2 + 1) - y₂ ^ 3 * x₃ * (d * x₂ ^ 2 - 1))) * h₃

theorem cross_sumY (h₁ : OnCurve x₁ y₁) (h₂ : OnCurve x₂ y₂) (h₃ : OnCurve x₃ y₃) :
    ((y₁ * y₂ + x₁ * x₂) * (1 + skew x₁ y₁ x₂ y₂) * y₃
        + (x₁ * y₂ + x₂ * y₁) * (1 - skew x₁ y₁ x₂ y₂) * x₃)
      * ((1 + skew x₂ y₂ x₃ y₃) * (1 - skew x₂ y₂ x₃ y₃)
        - edwardsD * (x₂ * y₃ + x₃ * y₂) * x₁ * (y₂ * y₃ + x₂ * x₃) * y₁)
    = ((y₂ * y₃ + x₂ * x₃) * (1 + skew x₂ y₂ x₃ y₃) * y₁
        + (x₂ * y₃ + x₃ * y₂) * (1 - skew x₂ y₂ x₃ y₃) * x₁)
      * ((1 + skew x₁ y₁ x₂ y₂) * (1 - skew x₁ y₁ x₂ y₂)
        - edwardsD * (x₁ * y₂ + x₂ * y₁) * x₃ * (y₁ * y₂ + x₁ * x₂) * y₃) := by
  unfold OnCurve at h₁ h₂ h₃
  unfold skew
  generalize edwardsD = d at h₁ h₂ h₃ ⊢
  linear_combination
    d * x₂ * y₂ *
        (x₁ * (x₂ ^ 3 * x₃ * y₃ ^ 2 * (d * y₂ ^ 2 + 1) + y₂ ^ 3 * x₃ ^ 2 * y₃ * (d * x₂ ^ 2 - 1)
          + x₂ ^ 2 * y₂ * (y₃ ^ 3 - y₃) - x₂ * y₂ ^ 2 * (x₃ ^ 3 + x₃))
        - y₁ * (x₂ ^ 3 * x₃ ^ 2 * y₃ * (d * y₂ ^ 2 + 1) + y₂ ^ 3 * x₃ * y₃ ^ 2 * (d * x₂ ^ 2 - 1)
          + x₂ ^ 2 * y₂ * (x₃ ^ 3 + x₃) - x₂ * y₂ ^ 2 * (y₃ ^ 3 - y₃))) * h₁
      + d * x₂ * y₂ *
        (x₁ ^ 2 * y₁ * (x₂ * (y₃ ^ 3 - y₃) + y₂ * (x₃ ^ 3 + x₃))
          + x₁ * y₁ ^ 2 * (x₂ * (x₃ ^ 3 + x₃) + y₂ * (y₃ ^ 3 - y₃))
          - (x₁ ^ 3 + x₁) * (x₂ * x₃ * y₃ ^ 2 + y₂ * x₃ ^ 2 * y₃)
          - (y₁ ^ 3 - y₁) * (x₂ * x₃ ^ 2 * y₃ + y₂ * x₃ * y₃ ^ 2)) * h₂
      + d * x₂ * y₂ *
        ((x₁ ^ 3 + x₁) * (x₂ ^ 2 * y₂ * y₃ + x₂ * y₂ ^ 2 * x₃)
          - (y₁ ^ 3 - y₁) * (x₂ ^ 2 * y₂ * x₃ + x₂ * y₂ ^ 2 * y₃)
          + x₁ ^ 2 * y₁ * (x₂ ^ 3 * y₃ * (d * y₂ ^ 2 + 1) - y₂ ^ 3 * x₃ * (d * x₂ ^ 2 - 1))
          - x₁ * y₁ ^ 2 * (x₂ ^ 3 * x₃ * (d * y₂ ^ 2 + 1) - y₂ ^ 3 * y₃ * (d * x₂ ^ 2 - 1))) * h₃

theorem sum_assoc (h₁ : OnCurve x₁ y₁) (h₂ : OnCurve x₂ y₂) (h₃ : OnCurve x₃ y₃) :
    sumX (sumX x₁ y₁ x₂ y₂) (sumY x₁ y₁ x₂ y₂) x₃ y₃
        = sumX x₁ y₁ (sumX x₂ y₂ x₃ y₃) (sumY x₂ y₂ x₃ y₃)
      ∧ sumY (sumX x₁ y₁ x₂ y₂) (sumY x₁ y₁ x₂ y₂) x₃ y₃
        = sumY x₁ y₁ (sumX x₂ y₂ x₃ y₃) (sumY x₂ y₂ x₃ y₃) := by
  have hleft := denominators_div (one_add_skew_ne_zero h₁ h₂) (one_sub_skew_ne_zero h₁ h₂)
    (h₁.sum h₂) h₃
  have hright := denominators_div (one_add_skew_ne_zero h₂ h₃) (one_sub_skew_ne_zero h₂ h₃)
    (h₂.sum h₃) h₁
  rw [sumX_comm x₁ y₁ (sumX _ _ _ _), sumY_comm x₁ y₁ (sumX _ _ _ _)]
  change sumX (_ / _) (_ / _) x₃ y₃ = sumX (_ / _) (_ / _) x₁ y₁
    ∧ sumY (_ / _) (_ / _) x₃ y₃ = sumY (_ / _) (_ / _) x₁ y₁
  rw [sumX_div (one_add_skew_ne_zero h₁ h₂) (one_sub_skew_ne_zero h₁ h₂),
    sumX_div (one_add_skew_ne_zero h₂ h₃) (one_sub_skew_ne_zero h₂ h₃),
    sumY_div (one_add_skew_ne_zero h₁ h₂) (one_sub_skew_ne_zero h₁ h₂),
    sumY_div (one_add_skew_ne_zero h₂ h₃) (one_sub_skew_ne_zero h₂ h₃),
    div_eq_div_iff hleft.1 hright.1, div_eq_div_iff hleft.2 hright.2]
  exact ⟨cross_sumX h₁ h₂ h₃, cross_sumY h₁ h₂ h₃⟩

end Law

/-! ## The group -/

@[ext]
structure Affine where
  x : Residue
  y : Residue
  onCurve : OnCurve x y

namespace Affine

theorem onCurve_zero : OnCurve 0 1 := by
  unfold OnCurve
  ring

theorem onCurve_neg {x y : Residue} (h : OnCurve x y) : OnCurve (-x) y := by
  unfold OnCurve at *
  linear_combination h

instance : Zero Affine := ⟨⟨0, 1, onCurve_zero⟩⟩

instance : Neg Affine := ⟨fun P => ⟨-P.x, P.y, onCurve_neg P.onCurve⟩⟩

instance : Add Affine :=
  ⟨fun P Q => ⟨sumX P.x P.y Q.x Q.y, sumY P.x P.y Q.x Q.y, P.onCurve.sum Q.onCurve⟩⟩

@[simp] theorem zero_x : (0 : Affine).x = 0 := rfl

@[simp] theorem zero_y : (0 : Affine).y = 1 := rfl

@[simp] theorem neg_x (P : Affine) : (-P).x = -P.x := rfl

@[simp] theorem neg_y (P : Affine) : (-P).y = P.y := rfl

theorem add_x (P Q : Affine) : (P + Q).x = sumX P.x P.y Q.x Q.y := rfl

theorem add_y (P Q : Affine) : (P + Q).y = sumY P.x P.y Q.x Q.y := rfl

protected theorem add_comm (P Q : Affine) : P + Q = Q + P :=
  Affine.ext (sumX_comm _ _ _ _) (sumY_comm _ _ _ _)

protected theorem zero_add (P : Affine) : 0 + P = P := by
  apply Affine.ext
  · simp [add_x, sumX, skew]
  · simp [add_y, sumY, skew]

protected theorem neg_add_cancel (P : Affine) : -P + P = 0 := by
  have hy := one_sub_skew_ne_zero (onCurve_neg P.onCurve) P.onCurve
  apply Affine.ext
  · simp only [add_x, sumX, neg_x, neg_y, zero_x]
    rw [div_eq_zero_iff]
    left
    ring
  · simp only [add_y, sumY, neg_x, neg_y, zero_y]
    rw [div_eq_one_iff_eq hy]
    have hcurve := P.onCurve
    unfold OnCurve at hcurve
    unfold skew
    linear_combination hcurve

instance : AddCommGroup Affine where
  add_assoc P Q R := Affine.ext (sum_assoc P.onCurve Q.onCurve R.onCurve).1
    (sum_assoc P.onCurve Q.onCurve R.onCurve).2
  zero_add := Affine.zero_add
  add_zero P := (Affine.add_comm P 0).trans (Affine.zero_add P)
  nsmul := nsmulRec
  zsmul := zsmulRec
  neg_add_cancel := Affine.neg_add_cancel
  add_comm := Affine.add_comm

end Affine

end LedgerTx.Curve
