import LedgerTx.Proofs.Bytes
import LedgerTx.Proofs.Curve.Group

/-!
# Compressed points

The compressed form depends on the affine point only, and reading it back
gives coordinates of that point.  The `y` of a curve point has exactly one
`x` with a given parity, apart from zero, so every string that is accepted is
the compressed form of one point.
-/

namespace LedgerTx.Curve

open Limbs

/-! ## Parities -/

namespace Residue

theorem evenOf_eq_zero {r : Residue} (h : evenOf r = 0) : r = 0 := by
  unfold evenOf at h
  split at h
  · exact neg_eq_zero.mp h
  · exact h

theorem exists_parity {r : Residue} {odd : Bool} (hzero : r = 0 → odd = false) :
    ∃ s : Residue, s ^ 2 = r ^ 2 ∧ (s.val % 2 = 1 ↔ odd = true) := by
  have heven := isEven_evenOf r
  cases odd with
  | false =>
      refine ⟨evenOf r, evenOf_sq r, ?_⟩
      unfold IsEven at heven
      rw [heven]
      decide
  | true =>
      have hne : evenOf r ≠ 0 := fun h => Bool.noConfusion (hzero (evenOf_eq_zero h))
      have hodd := (isEven_neg hne).not.mpr (not_not.mpr heven)
      refine ⟨-evenOf r, (neg_sq _).trans (evenOf_sq r), ?_⟩
      unfold IsEven at hodd
      exact iff_of_true (Nat.mod_two_ne_zero.mp hodd) rfl

end Residue

/-! ## Writing -/

namespace Affine

def encode (P : Affine) : Block 32 :=
  Block.ofNat (P.y.val + if P.x.val % 2 = 1 then 2 ^ 255 else 0)

theorem toNat_encode (P : Affine) :
    P.encode.toNat = P.y.val + if P.x.val % 2 = 1 then 2 ^ 255 else 0 := by
  have hlt := Residue.val_lt_two_pow P.y
  rw [encode, Block.toNat, Block.ofNat, LittleEndian.decode_encode, Nat.mod_eq_of_lt]
  split <;> omega

theorem testBit_encode (P : Affine) : P.encode.toNat.testBit 255 = decide (P.x.val % 2 = 1) := by
  have hlt := Residue.val_lt_two_pow P.y
  rw [toNat_encode, Nat.testBit_eq_decide_div_mod_eq]
  congr 1
  split <;> simp only [eq_iff_iff] <;> omega

theorem toNat_encode_mod (P : Affine) : P.encode.toNat % 2 ^ 255 = P.y.val := by
  have hlt := Residue.val_lt_two_pow P.y
  rw [toNat_encode]
  split <;> omega

/-- Over a `y` of the curve there is a point for each parity of `x` that can be asked for. -/
theorem exists_encode_eq {block : Block 32} {x y : Residue} (hy : y.val = block.toNat % 2 ^ 255)
    (hcurve : OnCurve x y) (hzero : x = 0 → block.toNat.testBit 255 = false) :
    ∃ P : Affine, P.encode = block := by
  obtain ⟨s, hs, hparity⟩ := Residue.exists_parity hzero
  have hpoint : OnCurve s y := by
    unfold OnCurve at hcurve ⊢
    rw [hs]
    exact hcurve
  refine ⟨⟨s, y, hpoint⟩, Block.eq_of_toNat_eq ?_⟩
  have hfits := block.toNat_lt
  rw [toNat_encode, hy]
  simp only [hparity, Nat.testBit_eq_decide_div_mod_eq, decide_eq_true_eq]
  split <;> omega

/-- The denominator of `x ^ 2` does not vanish, because the curve constant is no square. -/
theorem denominator_ne_zero (y : Residue) : y ^ 2 * Residue.edwardsD + 1 ≠ 0 := by
  intro hzero
  have hy : y ≠ 0 := by
    rintro rfl
    simp at hzero
  apply Residue.not_isSquare_edwardsD
  refine ⟨Residue.root / y, ?_⟩
  rw [div_mul_div_comm, eq_div_iff (mul_ne_zero hy hy)]
  linear_combination hzero - Residue.root_sq

theorem denominator_mul_x_sq (P : Affine) :
    (P.y ^ 2 * Residue.edwardsD + 1) * P.x ^ 2 = P.y ^ 2 - 1 := by
  have hcurve := P.onCurve
  unfold OnCurve at hcurve
  linear_combination -hcurve

/-- A point at height zero has order four. -/
theorem four_nsmul_of_y_eq_zero {P : Affine} (h : P.y = 0) : 4 • P = 0 := by
  have hcurve := P.onCurve
  unfold OnCurve at hcurve
  have hx : (P + P).x = 0 := by simp [add_x, sumX, h]
  have hy : (P + P).y = -1 := by
    rw [h] at hcurve
    simp only [add_y, sumY, skew, h]
    linear_combination -hcurve
  have hdouble : P + P + (P + P) = 0 := by
    apply Affine.ext
    · simp [add_x (P + P), sumX, hx]
    · simp [add_y (P + P), sumY, skew, hx, hy]
  rw [← hdouble]
  abel

/-- No multiple of the base point is at height zero, since its order is odd. -/
theorem y_nsmul_base_ne_zero (n : Nat) : (n • base).y ≠ 0 := by
  intro h
  have hfour := addOrderOf_dvd_of_nsmul_eq_zero (four_nsmul_of_y_eq_zero h)
  have hannihilated : Scalar.order • n • base = 0 := by
    rw [nsmul_left_comm, Point.order_nsmul_base, nsmul_zero]
  have hone : addOrderOf (n • base) ∣ 1 :=
    Nat.dvd_gcd hfour (addOrderOf_dvd_of_nsmul_eq_zero hannihilated)
  rw [Nat.dvd_one, AddMonoid.addOrderOf_eq_one_iff] at hone
  rw [hone] at h
  exact one_ne_zero h

end Affine

/-! ## Reading -/

namespace Point

variable {p q : Point} {P Q : Affine} {block : Block 32}

theorem Is.encode_eq (hp : p.Is P) : p.encode = P.encode := by
  obtain ⟨z, hz, hpx, hpy, hpz, -⟩ := hp
  have hx := (hpx.mul hpz.inv).of_eq (mul_inv_cancel_right₀ hz P.x)
  have hy := (hpy.mul hpz.inv).of_eq (mul_inv_cancel_right₀ hz P.y)
  unfold encode Affine.encode
  dsimp only
  rw [value_canonical, isNegative_eq, hx.residue_eq, hy.residue_eq]
  simp only [decide_eq_true_eq]

theorem even_root_eq {P : Affine} {r : Residue} (heven : Residue.IsEven r)
    (hroot : (P.y ^ 2 * Residue.edwardsD + 1) * r ^ 2 = P.y ^ 2 - 1) :
    r = Residue.evenOf P.x := by
  apply heven.eq_of_sq_eq (Residue.isEven_evenOf P.x)
  rw [Residue.evenOf_sq]
  apply mul_left_cancel₀ (Affine.denominator_ne_zero P.y)
  rw [hroot, P.denominator_mul_x_sq]

theorem decode?_encode (P : Affine) : ∃ p, decode? P.encode = some p ∧ p.Is P := by
  have hy : (Limbs.ofNat P.y.val).Represents P.y := by
    refine ⟨bounded_ofNat _, ?_⟩
    rw [Limbs.residue, value_ofNat (Residue.val_lt_two_pow P.y), ZMod.natCast_zmod_val]
  have hu := hy.square.sub Limbs.Represents.one
  have hv := (hy.square.mul Limbs.Represents.edwardsD).add Limbs.Represents.one
  obtain ⟨r, hr, heven, hroot, -⟩ := sqrtRatio_spec hu hv
  have hflag := sqrtRatio_of_square hu hv (Affine.denominator_ne_zero P.y)
    P.denominator_mul_x_sq
  obtain rfl := even_root_eq heven (hroot hflag)
  unfold decode?
  simp only [P.testBit_encode, P.toNat_encode_mod, Nat.not_le.mpr (ZMod.val_lt P.y), if_false]
  generalize sqrtRatio ((Limbs.ofNat P.y.val).square - .one)
    ((Limbs.ofNat P.y.val).square * .edwardsD + .one) = ratio at hr hflag ⊢
  obtain ⟨flag, limbs⟩ := ratio
  dsimp only at hr hflag
  subst hflag
  have hzero : (limbs.isZero && decide (P.x.val % 2 = 1)) = false := by
    by_contra h
    obtain ⟨hlimbs, hodd⟩ := Bool.and_eq_true_iff.mp (Bool.not_eq_false _ ▸ h)
    rw [isZero_eq_true, hr.residue_eq] at hlimbs
    rw [Residue.evenOf_eq_zero hlimbs, ZMod.val_zero] at hodd
    exact absurd hodd (by decide)
  have hx : (Limbs.select limbs (-limbs) (decide (P.x.val % 2 = 1))).Represents P.x := by
    refine (hr.select hr.neg (decide (P.x.val % 2 = 1))).of_eq ?_
    unfold Residue.evenOf
    by_cases hodd : P.x.val % 2 = 1
    · simp [hodd]
    · simp [hodd]
  simp only [hzero]
  exact ⟨_, rfl, 1, one_ne_zero, hx.of_eq (mul_one _).symm, hy.of_eq (mul_one _).symm, .one,
    (hx.mul hy).of_eq (mul_one _).symm⟩

theorem Is.unique (hp : p.Is P) (hq : p.Is Q) : P = Q :=
  (hp.same_iff hq).mp ((hp.same_iff hp).mpr rfl)

/-- What is accepted has a reduced `y` and over it an `x`, which is not zero where it is odd. -/
theorem onCurve_of_decode? (h : decode? block = some p) :
    block.toNat % 2 ^ 255 < prime ∧ ∃ x : Residue,
      OnCurve x (block.toNat % 2 ^ 255 : Nat) ∧ (x = 0 → block.toNat.testBit 255 = false) := by
  simp only [decode?] at h
  have hfits : block.toNat % 2 ^ 255 < 2 ^ 255 := Nat.mod_lt _ (by decide)
  generalize block.toNat % _ = n at h hfits ⊢
  generalize block.toNat.testBit 255 = odd at h ⊢
  by_cases hlarge : prime ≤ n
  · rw [if_pos hlarge] at h
    contradiction
  rw [if_neg hlarge] at h
  have hy : (Limbs.ofNat n).Represents n := ⟨bounded_ofNat n, by rw [residue, value_ofNat hfits]⟩
  obtain ⟨r, hr, -, hroot, -⟩ := sqrtRatio_spec (hy.square.sub Limbs.Represents.one)
    ((hy.square.mul Limbs.Represents.edwardsD).add Limbs.Represents.one)
  generalize sqrtRatio ((Limbs.ofNat n).square - .one)
    ((Limbs.ofNat n).square * .edwardsD + .one) = ratio at h hr hroot
  obtain ⟨flag, root⟩ := ratio
  cases flag with
  | false => contradiction
  | true =>
      dsimp only at h hr
      have hroot := hroot rfl
      refine ⟨Nat.not_le.mp hlarge, r, ?_, fun hzero => ?_⟩
      · unfold OnCurve
        linear_combination -hroot
      · have hlimbs : root.isZero = true := isZero_eq_true.mpr (hr.residue_eq.trans hzero)
        rw [hlimbs, Bool.true_and] at h
        split at h
        · contradiction
        · rename_i heven
          exact eq_false_of_ne_true heven

theorem exists_encode_of_decode? (h : decode? block = some p) :
    ∃ P : Affine, P.encode = block ∧ p.Is P := by
  obtain ⟨hlt, x, hcurve, hzero⟩ := onCurve_of_decode? h
  obtain ⟨P, hP⟩ := Affine.exists_encode_eq (ZMod.val_natCast_of_lt hlt) hcurve hzero
  obtain ⟨q, hq, his⟩ := decode?_encode P
  rw [hP, h, Option.some.injEq] at hq
  exact ⟨P, hP, hq ▸ his⟩

end Point

theorem Affine.encode_injective : Function.Injective Affine.encode := by
  intro P Q h
  obtain ⟨p, hp, hP⟩ := Point.decode?_encode P
  obtain ⟨q, hq, hQ⟩ := Point.decode?_encode Q
  rw [h, hq, Option.some.injEq] at hp
  exact hP.unique (hp ▸ hQ)

theorem Point.Is.encode_eq_iff {p q : Point} {P Q : Affine} (hp : p.Is P) (hq : q.Is Q) :
    p.encode = q.encode ↔ P = Q := by
  rw [hp.encode_eq, hq.encode_eq, Affine.encode_injective.eq_iff]

end LedgerTx.Curve
