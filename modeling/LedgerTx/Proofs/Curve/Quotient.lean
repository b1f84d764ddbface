import LedgerTx.Proofs.Curve.Computation

/-!
# Inverses and roots of quotients

What inversion and square roots are asked for, in terms of the limb
operations alone: products and squares are compared modulo the prime, and a
root is looked for among all bounded limbs.
-/

namespace LedgerTx.Curve

open Residue

namespace Limbs

/-! ## Roots among limbs -/

theorem exists_represents (r : Residue) : ∃ a : Limbs, Represents a r := by
  refine ⟨.ofNat r.val, bounded_ofNat _, ?_⟩
  rw [residue, value_ofNat (val_lt_two_pow r), ZMod.natCast_zmod_val]

def IsRoot (u v x : Limbs) : Prop :=
  (x.square * v).same u = true

/-- Whether some element is the root of a quotient. -/
def HasRoot (u v : Limbs) : Prop :=
  ∃ x : Limbs, x.Bounded ∧ IsRoot u v x

section Roots

variable {u v x : Limbs}

theorem isRoot_iff (hv : v.Bounded) (hx : x.Bounded) :
    IsRoot u v x ↔ x.residue ^ 2 * v.residue = u.residue := by
  have hproduct := (Represents.square ⟨hx, rfl⟩).mul (Represents.mk hv rfl)
  rw [IsRoot, same_eq_true, hproduct.residue_eq]

theorem hasRoot_iff (hv : v.Bounded) (hzero : v.residue ≠ 0) :
    HasRoot u v ↔ IsSquare (u.residue / v.residue) := by
  rw [isSquare_iff_exists_sq]
  constructor
  · rintro ⟨x, hx, hroot⟩
    refine ⟨x.residue, ?_⟩
    rw [← (isRoot_iff hv hx).mp hroot, mul_div_cancel_right₀ _ hzero]
  · rintro ⟨r, hr⟩
    obtain ⟨x, hx, rfl⟩ := exists_represents r
    refine ⟨x, hx, (isRoot_iff hv hx).mpr ?_⟩
    rw [← hr, div_mul_cancel₀ _ hzero]

end Roots

/-! ## The root of a quotient -/

/-- What the root of `u / v` is asked for, with the flag that tells of a square. -/
structure RootOfRatio (u v : Limbs) (flag : Bool) (root : Limbs) : Prop where
  bounded : root.Bounded
  not_negative : root.isNegative = false
  even : root.toBlock.toNat % 2 = 0
  of_root : v.isZero = false → HasRoot u v → flag = true ∧ IsRoot u v root
  of_zero : u.isZero = true → flag = true ∧ root.isZero = true
  of_zero_divisor : v.isZero = true → u.isZero = false → flag = false ∧ root.isZero = true
  of_no_root : v.isZero = false → ¬HasRoot u v → flag = false ∧ IsRoot (sqrtMinusOne * u) v root

theorem isZero_eq_false {a : Limbs} : a.isZero = false ↔ a.residue ≠ 0 := by
  rw [← Bool.not_eq_true, isZero_eq_true]

theorem rootOfRatio {u v : Limbs} (hu : u.Bounded) (hv : v.Bounded) :
    RootOfRatio u v (sqrtRatio u v).1 (sqrtRatio u v).2 := by
  have hdividend : Represents u u.residue := ⟨hu, rfl⟩
  have hdivisor : Represents v v.residue := ⟨hv, rfl⟩
  obtain ⟨r, hr, heven, hfound, hmissed, hnone⟩ := sqrtRatio_spec hdividend hdivisor
  have hflag := (sqrtRatio_exact hdividend hdivisor).1
  have hroot {w : Limbs} (h : v.residue * r ^ 2 = w.residue) : IsRoot w v (sqrtRatio u v).2 := by
    rw [isRoot_iff hv hr.bounded, hr.residue_eq, mul_comm]
    exact h
  refine
    { bounded := hr.bounded
      not_negative := ?_
      even := ?_
      of_root := fun hzero hsquare => ?_
      of_zero := fun hzero => ?_
      of_zero_divisor := fun hzero hne => ?_
      of_no_root := fun hzero hsquare => ?_ }
  · rw [isNegative_eq, hr.residue_eq, decide_eq_false_iff_not]
    unfold IsEven at heven
    omega
  · rw [Checked.toNat_toBlock, hr.residue_eq]
    exact heven
  · rw [isZero_eq_false] at hzero
    have htrue := hflag.mpr (.inr ⟨hzero, (hasRoot_iff hv hzero).mp hsquare⟩)
    exact ⟨htrue, hroot (hfound htrue)⟩
  · rw [isZero_eq_true] at hzero
    have htrue := hflag.mpr (.inl hzero)
    have hproduct := hfound htrue
    rw [hzero, mul_eq_zero, pow_eq_zero_iff (by decide)] at hproduct
    refine ⟨htrue, ?_⟩
    rw [isZero_eq_true, hr.residue_eq]
    exact hproduct.elim hnone id
  · rw [isZero_eq_true] at hzero
    rw [isZero_eq_false] at hne
    refine ⟨Bool.eq_false_iff.mpr fun htrue => ?_, ?_⟩
    · rcases hflag.mp htrue with hdiv | ⟨hdiv, -⟩
      · exact hne hdiv
      · exact hdiv hzero
    · rw [isZero_eq_true, hr.residue_eq]
      exact hnone hzero
  · rw [isZero_eq_false] at hzero
    have hfalse : (sqrtRatio u v).1 = false := Bool.eq_false_iff.mpr fun htrue =>
      hsquare ((hasRoot_iff hv hzero).mpr ((hasRatioRoot_iff hzero).mp (hflag.mp htrue)))
    refine ⟨hfalse, hroot ?_⟩
    rw [(Represents.sqrtMinusOne.mul hdividend).residue_eq]
    exact hmissed hfalse hzero

/-! ## Square roots -/

theorem sqrt?_eq_some {a r : Limbs} :
    a.sqrt? = some r ↔ (sqrtRatio a one).1 = true ∧ (sqrtRatio a one).2 = r := by
  -- opened without its argument: the kernel would run an opened `a.sqrt?` up to its flag
  generalize hsqrt : sqrt? = f
  delta sqrt? at hsqrt
  subst hsqrt
  beta_reduce
  generalize sqrtRatio a one = ratio
  obtain ⟨flag, root⟩ := ratio
  cases flag <;> simp

theorem sqrt?_spec {a : Limbs} (ha : a.Bounded) :
    (∀ r, a.sqrt? = some r → r.Bounded ∧ r.isNegative = false ∧ r.square.same a = true)
      ∧ ((∃ r, a.sqrt? = some r) ↔ ∃ x : Limbs, x.Bounded ∧ x.square.same a = true) := by
  have hratio := rootOfRatio ha bounded_one
  have hone : one.isZero = false := by
    rw [isZero_eq_false, residue_one]
    exact one_ne_zero
  have hroot {x : Limbs} (hx : x.Bounded) : IsRoot a one x ↔ x.square.same a = true := by
    rw [isRoot_iff bounded_one hx, same_eq_true, (Represents.square ⟨hx, rfl⟩).residue_eq,
      residue_one, mul_one]
  have hflag : (sqrtRatio a one).1 = true ↔ HasRoot a one := by
    constructor
    · intro htrue
      by_contra hnone
      cases htrue.symm.trans (hratio.of_no_root hone hnone).1
    · exact fun hsquare => (hratio.of_root hone hsquare).1
  constructor
  · intro r h
    obtain ⟨htrue, rfl⟩ := sqrt?_eq_some.mp h
    have his := (hratio.of_root hone (hflag.mp htrue)).2
    exact ⟨hratio.bounded, hratio.not_negative, (hroot hratio.bounded).mp his⟩
  · have hsome : (∃ r, a.sqrt? = some r) ↔ (sqrtRatio a one).1 = true := by
      simp only [sqrt?_eq_some, exists_and_left, exists_eq', and_true]
    rw [hsome, hflag]
    exact exists_congr fun x => and_congr_right fun hx => hroot hx

/-! ## Inversion -/

theorem mul_invert {a : Limbs} (ha : a.Bounded) (hzero : a.isZero = false) :
    (a * a.invert).same one = true := by
  have hself : Represents a a.residue := ⟨ha, rfl⟩
  rw [same_eq_true, (hself.mul hself.inv).residue_eq, residue_one,
    mul_inv_cancel₀ (isZero_eq_false.mp hzero)]

theorem invert_of_isZero {a : Limbs} (ha : a.Bounded) (hzero : a.isZero = true) :
    a.invert.isZero = true := by
  have hself : Represents a a.residue := ⟨ha, rfl⟩
  rw [isZero_eq_true, hself.inv.residue_eq, isZero_eq_true.mp hzero, inv_zero]

/--
On bounded limbs, which all computations arrive at, an element times its
inverse is one unless the element is zero, the root of a quotient is what it
is asked for, and a square root is found exactly for squares.
-/
theorem inverses_and_roots :
    (∀ s : Computation, s.limbs.Bounded)
    ∧ (∀ a : Limbs, a.Bounded →
      (a.isZero = false → (a * a.invert).same one = true)
      ∧ (a.isZero = true → a.invert.isZero = true)
      ∧ (∀ r, a.sqrt? = some r → r.Bounded ∧ r.isNegative = false ∧ r.square.same a = true)
      ∧ ((∃ r, a.sqrt? = some r) ↔ ∃ x : Limbs, x.Bounded ∧ x.square.same a = true))
    ∧ ∀ u v : Limbs, u.Bounded → v.Bounded →
      RootOfRatio u v (sqrtRatio u v).1 (sqrtRatio u v).2 :=
  ⟨fun s => s.represents_limbs.bounded,
    fun _ ha => ⟨mul_invert ha, invert_of_isZero ha, (sqrt?_spec ha).1, (sqrt?_spec ha).2⟩,
    fun _ _ hu hv => rootOfRatio hu hv⟩

theorem inverses_and_roots_small :
    (ofNat 2).Bounded ∧ (ofNat 4).Bounded ∧ (ofNat 2 * (ofNat 2).invert).same one = true
      ∧ zero.invert.isZero = true ∧ (∃ r, (ofNat 4).sqrt? = some r ∧ r.square.same (ofNat 4) = true)
      ∧ ¬HasRoot (ofNat 2) one
      ∧ IsRoot (sqrtMinusOne * ofNat 2) one (sqrtRatio (ofNat 2) one).2
      ∧ (sqrtRatio one zero).1 = false := by
  obtain ⟨-, hinverse, hratio⟩ := inverses_and_roots
  have htwo := bounded_ofNat 2
  have hfour := bounded_ofNat 4
  have hroot := hratio _ _ htwo bounded_one
  have hnone : ¬HasRoot (ofNat 2) one := by
    intro hsquare
    have hflag : (sqrtRatio (ofNat 2) one).1 = false := by decide +kernel
    cases hflag.symm.trans (hroot.of_root (by decide +kernel) hsquare).1
  obtain ⟨r, hr⟩ := (hinverse _ hfour).2.2.2.mpr ⟨ofNat 2, htwo, by decide +kernel⟩
  exact ⟨htwo, hfour, (hinverse _ htwo).1 (by decide +kernel),
    (hinverse _ bounded_zero).2.1 (by decide +kernel),
    ⟨r, hr, ((hinverse _ hfour).2.2.1 r hr).2.2⟩, hnone,
    (hroot.of_no_root (by decide +kernel) hnone).2,
    ((hratio _ _ bounded_one bounded_zero).of_zero_divisor (by decide +kernel)
      (by decide +kernel)).1⟩

end Limbs

end LedgerTx.Curve
