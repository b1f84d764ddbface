import LedgerTx.Proofs.Curve.Field

/-!
# Powers, inverses and square roots

The two exponent chains compute the powers `p - 2` and `(p - 5) / 8`.  The
first inverts; from the second `sqrtRatio` finds the even root of a quotient
whenever the quotient is a square.
-/

namespace LedgerTx.Curve

open Residue

namespace Limbs

/-! ## Exponent chains -/

namespace Represents

variable {a b : Limbs} {r : Residue} {m n : Nat}

theorem mul_pow (ha : Represents a (r ^ m)) (hb : Represents b (r ^ n)) :
    Represents (a * b) (r ^ (m + n)) := by
  rw [pow_add]
  exact ha.mul hb

theorem squarings (ha : Represents a (r ^ m)) (k : Nat) :
    Represents (a.squarings k) (r ^ (m * 2 ^ k)) := by
  induction k with
  | zero =>
      rw [pow_zero, mul_one]
      exact ha
  | succ k ih =>
      have hsquare := ih.square
      rw [← pow_mul, mul_assoc, ← Nat.pow_succ] at hsquare
      exact hsquare

theorem pow2k (ha : Represents a (r ^ m)) {k : Nat} (hk : 0 < k) :
    Represents (a.pow2k k) (r ^ (m * 2 ^ k)) := by
  rw [Limbs.pow2k, Nat.max_eq_left hk]
  exact ha.squarings k

theorem square_pow (ha : Represents a (r ^ m)) : Represents a.square (r ^ (m * 2)) := by
  rw [pow_mul]
  exact ha.square

theorem powChain (ha : Represents a r) :
    Represents a.powChain.1 (r ^ (2 ^ 250 - 1)) ∧ Represents a.powChain.2 (r ^ 11) := by
  rw [← pow_one r] at ha
  have h0 := ha.square_pow
  have h2 := ha.mul_pow (h0.pow2k (k := 2) (by decide))
  have h3 := h0.mul_pow h2
  have h5 := h2.mul_pow h3.square_pow
  have h7 := (h5.pow2k (k := 5) (by decide)).mul_pow h5
  have h9 := (h7.pow2k (k := 10) (by decide)).mul_pow h7
  have h11 := (h9.pow2k (k := 20) (by decide)).mul_pow h9
  have h13 := (h11.pow2k (k := 10) (by decide)).mul_pow h7
  have h15 := (h13.pow2k (k := 50) (by decide)).mul_pow h13
  have h17 := (h15.pow2k (k := 100) (by decide)).mul_pow h15
  have hlast := (h17.pow2k (k := 50) (by decide)).mul_pow h13
  constructor
  · norm_num only at hlast ⊢
    exact hlast
  · exact h3

theorem invert (ha : Represents a r) : Represents a.invert (r ^ (2 ^ 255 - 21)) := by
  obtain ⟨hhigh, hlow⟩ := ha.powChain
  have hpower := (hhigh.pow2k (k := 5) (by decide)).mul_pow hlow
  norm_num only at hpower ⊢
  exact hpower

/-- Inversion, by the little theorem of Fermat; zero is sent to zero. -/
theorem inv (ha : Represents a r) : Represents a.invert r⁻¹ := by
  have hpower := ha.invert
  have hinverse : r ^ (2 ^ 255 - 21) = r⁻¹ := by
    by_cases hr : r = 0
    · rw [hr, inv_zero]
      exact zero_pow (by decide)
    · apply eq_inv_of_mul_eq_one_left
      rw [← pow_succ]
      exact ZMod.pow_card_sub_one_eq_one hr
  rwa [hinverse] at hpower

theorem powRoot (ha : Represents a r) : Represents a.powRoot (r ^ (2 ^ 252 - 3)) := by
  have hchain := ha.powChain.1.pow2k (k := 2) (by decide)
  rw [← pow_one r] at ha
  have hpower := ha.mul_pow hchain
  norm_num only at hpower ⊢
  exact hpower

end Represents

/-! ## Square roots -/

end Limbs

namespace Residue

def IsEven (r : Residue) : Prop := r.val % 2 = 0

def evenOf (r : Residue) : Residue := if r.val % 2 = 1 then -r else r

theorem val_neg_of_ne_zero {r : Residue} (hr : r ≠ 0) : (-r).val = prime - r.val := by
  rw [ZMod.neg_val, if_neg hr]

theorem isEven_neg {r : Residue} (hr : r ≠ 0) : IsEven (-r) ↔ ¬IsEven r := by
  have hlt := ZMod.val_lt r
  have hodd : prime % 2 = 1 := by decide
  unfold IsEven
  rw [val_neg_of_ne_zero hr]
  omega

theorem isEven_evenOf (r : Residue) : IsEven (evenOf r) := by
  unfold evenOf
  split
  · rename_i hodd
    have hr : r ≠ 0 := by
      rintro rfl
      rw [ZMod.val_zero] at hodd
      omega
    rw [isEven_neg hr]
    unfold IsEven
    omega
  · rename_i heven
    unfold IsEven
    omega

theorem evenOf_sq (r : Residue) : evenOf r ^ 2 = r ^ 2 := by
  unfold evenOf
  split
  · exact neg_sq r
  · rfl

/-- A square has one even root. -/
theorem IsEven.eq_of_sq_eq {r s : Residue} (hr : IsEven r) (hs : IsEven s) (h : r ^ 2 = s ^ 2) :
    r = s := by
  rcases sq_eq_sq_iff_eq_or_eq_neg.mp h with heq | hneg
  · exact heq
  · by_cases hzero : s = 0
    · rw [hneg, hzero, neg_zero]
    · rw [hneg] at hr
      exact absurd hs ((isEven_neg hzero).mp hr)

def candidate (u v : Residue) : Residue := u * v ^ 3 * (u * v ^ 7) ^ (2 ^ 252 - 3)

/-- The candidate squares to the quotient times a fourth root of one. -/
theorem mul_candidate_sq (u v : Residue) :
    v * candidate u v ^ 2 = u * (u * v ^ 7) ^ (2 ^ 253 - 5) := by
  have hexponent : (2 ^ 253 - 5 : Nat) = (2 ^ 252 - 3) * 2 + 1 := by decide
  unfold candidate
  rw [hexponent, pow_succ _ ((2 ^ 252 - 3) * 2), pow_mul]
  ring

/-- For a square quotient the candidate squares to the quotient or to its opposite. -/
theorem mul_candidate_sq_of_square {v : Residue} (hv : v ≠ 0) (x : Residue) :
    v * candidate (v * x ^ 2) v ^ 2 = v * x ^ 2
      ∨ v * candidate (v * x ^ 2) v ^ 2 = -(v * x ^ 2) := by
  have hhalf : 2 * (2 ^ 253 - 5) = prime / 2 := by decide
  have hbase : v * x ^ 2 * v ^ 7 = (x * v ^ 4) ^ 2 := by ring
  rw [mul_candidate_sq, hbase, ← pow_mul, hhalf]
  by_cases hx : x = 0
  · left
    rw [hx]
    ring
  · have hne : x * v ^ 4 ≠ 0 := mul_ne_zero hx (pow_ne_zero 4 hv)
    rcases ZMod.pow_div_two_eq_neg_one_or_one prime hne with hone | hone
    · left
      rw [hone, mul_one]
    · right
      rw [hone, mul_neg, mul_one]

/-- For any other quotient it squares to the quotient times a root of minus one. -/
theorem mul_candidate_sq_of_not_square {u v : Residue} (hv : v ≠ 0) (h : ¬IsSquare (u / v)) :
    v * candidate u v ^ 2 = root * u ∨ v * candidate u v ^ 2 = -(root * u) := by
  have hhalf : (2 ^ 253 - 5) * 2 = prime / 2 := by decide
  have hu : u ≠ 0 := by
    rintro rfl
    exact h (by rw [zero_div]; exact IsSquare.zero)
  have hbase : u * v ^ 7 ≠ 0 := mul_ne_zero hu (pow_ne_zero 7 hv)
  have hminus : ((u * v ^ 7) ^ (2 ^ 253 - 5)) ^ 2 = root ^ 2 := by
    rw [← pow_mul, hhalf, root_sq]
    rcases ZMod.pow_div_two_eq_neg_one_or_one prime hbase with hone | hminus
    · obtain ⟨x, hx⟩ := (ZMod.euler_criterion prime hbase).mpr hone
      refine absurd ⟨x / v ^ 4, ?_⟩ h
      rw [div_mul_div_comm, ← hx]
      field_simp
    · exact hminus
  rw [mul_candidate_sq]
  rcases sq_eq_sq_iff_eq_or_eq_neg.mp hminus with heq | hneg
  · left
    rw [heq, mul_comm]
  · right
    rw [hneg, mul_neg, mul_comm]

theorem mul_root_sq (v r : Residue) : v * (root * r) ^ 2 = -(v * r ^ 2) := by
  linear_combination v * r ^ 2 * root_sq

theorem eq_zero_of_eq_neg_mul_root {u : Residue} (h : u = -u * root) : u = 0 := by
  have hdouble : 2 * u ^ 2 = 0 := by linear_combination (u - u * root) * h + u ^ 2 * root_sq
  rcases mul_eq_zero.mp hdouble with htwo | hsq
  · exact absurd htwo two_ne
  · exact pow_eq_zero_iff (by decide) |>.mp hsq

noncomputable def evenRoot (w : Residue) : Residue :=
  open Classical in if h : ∃ r, IsEven r ∧ r ^ 2 = w then h.choose else 0

theorem IsEven.eq_evenRoot {r w : Residue} (hr : IsEven r) (h : r ^ 2 = w) : r = evenRoot w := by
  have hex : ∃ r, IsEven r ∧ r ^ 2 = w := ⟨r, hr, h⟩
  rw [evenRoot, dif_pos hex]
  exact hr.eq_of_sq_eq hex.choose_spec.1 (h.trans hex.choose_spec.2.symm)

def HasRatioRoot (u v : Residue) : Prop :=
  u = 0 ∨ v ≠ 0 ∧ IsSquare (u / v)

/--
The even root of a quotient, or of the quotient times the root of minus one
where the quotient is no square; zero for a zero divisor.
-/
noncomputable def ratioRoot (u v : Residue) : Residue :=
  open Classical in
  if IsSquare (u / v) then evenRoot (u / v) else evenRoot (root * (u / v))

theorem hasRatioRoot_iff {u v : Residue} (hv : v ≠ 0) : HasRatioRoot u v ↔ IsSquare (u / v) := by
  constructor
  · rintro (rfl | ⟨-, h⟩)
    · rw [zero_div]
      exact IsSquare.zero
    · exact h
  · intro h
    exact .inr ⟨hv, h⟩

theorem ratioRoot_zero (u : Residue) : ratioRoot u 0 = 0 := by
  have heven : IsEven 0 := by
    unfold IsEven
    rw [ZMod.val_zero]
  rw [ratioRoot, div_zero, if_pos IsSquare.zero]
  exact (heven.eq_evenRoot (zero_pow (by decide))).symm

end Residue

namespace Limbs

section Ratio

variable {a b : Limbs} {u v : Residue}

theorem Represents.same_iff (ha : Represents a u) (hb : Represents b v) :
    a.same b = true ↔ u = v := by
  rw [same_eq_true, ha.residue_eq, hb.residue_eq]

theorem Represents.evenOf (ha : Represents a u) :
    Represents (Limbs.select a (-a) a.isNegative) (Residue.evenOf u) := by
  rw [isNegative_eq, ha.residue_eq]
  unfold Residue.evenOf
  simpa only [decide_eq_true_eq] using ha.select ha.neg (decide (u.val % 2 = 1))

theorem Represents.candidate (ha : Represents a u) (hb : Represents b v) :
    Represents (a * (b.square * b) * (a * ((b.square * b).square * b)).powRoot)
      (Residue.candidate u v) := by
  have hcube := hb.square.mul hb
  have hseventh := hcube.square.mul hb
  have hroot := (ha.mul hcube).mul (ha.mul hseventh).powRoot
  have hthree : v ^ 2 * v = v ^ 3 := by ring
  have hseven : (v ^ 3) ^ 2 * v = v ^ 7 := by ring
  rw [hthree, hseven] at hroot
  exact hroot

theorem sqrtRatio_flag (ha : Represents a u) (hb : Represents b v) :
    (sqrtRatio a b).1 = true
      ↔ v * Residue.candidate u v ^ 2 = u ∨ v * Residue.candidate u v ^ 2 = -u := by
  have hcheck := hb.mul (ha.candidate hb).square
  rw [← hcheck.same_iff ha, ← hcheck.same_iff ha.neg, ← Bool.or_eq_true_iff]
  rfl

/--
The flag tells of a root, and the root is even.  Without the flag it is a
root of the quotient times the root of minus one, and zero for a zero divisor.
-/
theorem sqrtRatio_spec (ha : Represents a u) (hb : Represents b v) :
    ∃ r, Represents (sqrtRatio a b).2 r ∧ IsEven r
      ∧ ((sqrtRatio a b).1 = true → v * r ^ 2 = u)
      ∧ ((sqrtRatio a b).1 = false → v ≠ 0 → v * r ^ 2 = Residue.root * u)
      ∧ (v = 0 → r = 0) := by
  have hroot := ha.candidate hb
  have hcheck := hb.mul hroot.square
  have hdirect := hcheck.same_iff ha
  have hflipped := hcheck.same_iff ha.neg
  have htwisted := hcheck.same_iff (ha.neg.mul Represents.sqrtMinusOne)
  unfold sqrtRatio
  dsimp only
  generalize (b * (a * (b.square * b) * (a * ((b.square * b).square * b)).powRoot).square).same a
    = direct at hdirect ⊢
  generalize (b * (a * (b.square * b) * (a * ((b.square * b).square * b)).powRoot).square).same (-a)
    = flipped at hflipped ⊢
  generalize (b * (a * (b.square * b) * (a * ((b.square * b).square * b)).powRoot).square).same
    (-a * sqrtMinusOne) = twisted at htwisted ⊢
  have hturned := hroot.select (Represents.sqrtMinusOne.mul hroot) (flipped || twisted)
  refine ⟨_, hturned.evenOf, isEven_evenOf _, fun hflag => ?_, fun hflag hv => ?_, fun hv => ?_⟩
  · rw [evenOf_sq]
    split
    · rename_i hturn
      rw [mul_root_sq]
      cases flipped with
      | true =>
          rw [hflipped.mp rfl, neg_neg]
      | false =>
          have hu := hdirect.mp (by simpa using hflag)
          have hi := htwisted.mp (by simpa using hturn)
          rw [hu] at hi ⊢
          rw [eq_zero_of_eq_neg_mul_root hi, neg_zero]
    · rename_i hturn
      have hflip : flipped = false := by
        cases flipped with
        | true => exact absurd rfl hturn
        | false => rfl
      exact hdirect.mp (by simpa [hflip] using hflag)
  · obtain ⟨rfl, rfl⟩ := Bool.or_eq_false_iff.mp hflag
    have hsquare : ¬IsSquare (u / v) := by
      rintro ⟨x, hx⟩
      have hxv : v * x ^ 2 = u := by
        rw [pow_two, ← hx, mul_div_cancel₀ _ hv]
      have hcases := mul_candidate_sq_of_square hv x
      rw [hxv] at hcases
      rcases hcases with hone | hminus
      · exact Bool.false_ne_true (hdirect.mpr hone)
      · exact Bool.false_ne_true (hflipped.mpr hminus)
    have hcases := mul_candidate_sq_of_not_square hv hsquare
    rw [evenOf_sq, Bool.false_or]
    cases twisted with
    | true =>
        rw [if_pos rfl, mul_root_sq, htwisted.mp rfl]
        ring
    | false =>
        rw [if_neg Bool.false_ne_true]
        rcases hcases with hone | hminus
        · exact hone
        · refine absurd (htwisted.mpr (hminus.trans ?_)) Bool.false_ne_true
          ring
  · have hzero : Residue.candidate u v = 0 := by
      rw [Residue.candidate, hv]
      ring
    rw [hzero, mul_zero, ite_self, Residue.evenOf, neg_zero, ite_self]

theorem sqrtRatio_of_square (ha : Represents a u) (hb : Represents b v) (hv : v ≠ 0) {x : Residue}
    (hx : v * x ^ 2 = u) : (sqrtRatio a b).1 = true := by
  rw [sqrtRatio_flag ha hb, ← hx]
  exact mul_candidate_sq_of_square hv x

theorem sqrtRatio_exact (ha : Represents a u) (hb : Represents b v) :
    ((sqrtRatio a b).1 = true ↔ HasRatioRoot u v)
      ∧ Represents (sqrtRatio a b).2 (ratioRoot u v) := by
  obtain ⟨r, hr, heven, hfound, hmissed, hzero⟩ := sqrtRatio_spec ha hb
  have hflag := sqrtRatio_flag ha hb
  have hsquare := sqrtRatio_of_square ha hb
  by_cases hv : v = 0
  · have hroot : r = ratioRoot u v := by
      rw [hzero hv, hv, ratioRoot_zero]
    refine ⟨?_, hroot ▸ hr⟩
    rw [hflag, hv, zero_mul, HasRatioRoot, eq_comm, zero_eq_neg, or_self]
    exact ⟨Or.inl, fun h => h.resolve_right fun h => h.1 rfl⟩
  have hdivide {c : Residue} (h : v * r ^ 2 = c) : r ^ 2 = c / v := by
    rw [eq_div_iff hv, mul_comm]
    exact h
  have hsquare : (sqrtRatio a b).1 = true ↔ IsSquare (u / v) := by
    constructor
    · intro h
      exact ⟨r, by rw [← hdivide (hfound h), pow_two]⟩
    · rintro ⟨x, hx⟩
      apply sqrtRatio_of_square ha hb hv (x := x)
      rw [pow_two, ← hx, mul_div_cancel₀ _ hv]
  refine ⟨hsquare.trans (hasRatioRoot_iff hv).symm, hr.of_eq ?_⟩
  unfold ratioRoot
  split
  · rename_i hs
    exact heven.eq_evenRoot (hdivide (hfound (hsquare.mpr hs)))
  · rename_i hs
    have hmiss := hmissed (Bool.eq_false_iff.mpr fun h => hs (hsquare.mp h)) hv
    rw [← mul_div_assoc]
    exact heven.eq_evenRoot (hdivide hmiss)

end Ratio

end Limbs

end LedgerTx.Curve
