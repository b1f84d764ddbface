import LedgerTx.Curve.Limbs
import Mathlib.NumberTheory.LucasPrimality
import Mathlib.Tactic.LinearCombination
import Mathlib.Tactic.NormNum.LegendreSymbol
import Mathlib.Tactic.NormNum.Prime

/-!
# The field of residues

The characteristic `2 ^ 255 - 19` is a prime, by certificates after Lucas: a
base whose powers modulo `p` reach one at the exponent `p - 1` and at none of
its maximal proper divisors.  Among the residues minus one is a square and
the curve constant is not; the addition law of the curve rests on these two
facts.
-/

namespace LedgerTx.Curve

/-! ## Powers modulo a number -/

/-- A power modulo a number, by squaring; exact for exponents of at most `depth` bits. -/
def powMod (modulus base : Nat) : (depth exponent : Nat) → Nat
  | 0, _ => 1 % modulus
  | depth + 1, exponent =>
      let half := powMod modulus base depth (exponent / 2)
      if exponent % 2 = 1 then half * half % modulus * base % modulus else half * half % modulus

theorem powMod_eq (modulus base : Nat) {depth exponent : Nat} (hfits : exponent < 2 ^ depth) :
    powMod modulus base depth exponent = base ^ exponent % modulus := by
  induction depth generalizing exponent with
  | zero =>
      obtain rfl : exponent = 0 := by omega
      rfl
  | succ depth ih =>
      have hhalf : exponent / 2 < 2 ^ depth := by omega
      have hsquare : (base ^ (exponent / 2) % modulus) * (base ^ (exponent / 2) % modulus) % modulus
          = base ^ (2 * (exponent / 2)) % modulus := by
        rw [← Nat.mul_mod, ← pow_add, two_mul]
      rw [powMod, ih hhalf, hsquare]
      split
      · rename_i hodd
        have hsum : 2 * (exponent / 2) + 1 = exponent := by omega
        rw [Nat.mod_mul_mod, ← pow_succ, hsum]
      · rename_i heven
        have hsum : 2 * (exponent / 2) = exponent := by omega
        rw [hsum]

theorem pow_eq_one_iff_powMod {p : Nat} (hp : 1 < p) (base : Nat) {depth exponent : Nat}
    (hfits : exponent < 2 ^ depth) :
    (base : ZMod p) ^ exponent = 1 ↔ powMod p base depth exponent = 1 := by
  rw [powMod_eq p base hfits, ← Nat.cast_pow, ← Nat.cast_one, ZMod.natCast_eq_natCast_iff',
    Nat.mod_eq_of_lt hp]

/-! ## Certificates -/

structure Certificate where
  number : Nat
  base : Nat
  factors : List (Nat × Nat)

namespace Certificate

/--
Whether a certificate of at most 256 bits holds: the factors multiply to
`p - 1`, and the power of the base is one at `p - 1` and not one at `p - 1`
divided by any factor.
-/
def holds : Certificate → Bool
  | ⟨p, base, factors⟩ =>
      1 < p && p < 2 ^ 256 && (factors.map fun factor => factor.1 ^ factor.2).prod == p - 1
        && powMod p base 256 (p - 1) == 1
        && factors.all fun factor => powMod p base 256 ((p - 1) / factor.1) != 1

theorem prime_of_holds {certificate : Certificate} (hholds : certificate.holds = true)
    (hprimes : ∀ factor ∈ certificate.factors, factor.1.Prime) : certificate.number.Prime := by
  obtain ⟨p, base, factors⟩ := certificate
  simp only [holds, Bool.and_eq_true, decide_eq_true_eq, beq_iff_eq, bne_iff_ne,
    List.all_eq_true] at hholds
  obtain ⟨⟨⟨⟨hp, hsize⟩, hproduct⟩, hfull⟩, hproper⟩ := hholds
  have hfits (divisor : Nat) : (p - 1) / divisor < 2 ^ 256 :=
    Nat.lt_of_le_of_lt ((Nat.div_le_self _ _).trans (Nat.sub_le _ _)) hsize
  apply lucas_primality p (base : ZMod p)
  · exact (pow_eq_one_iff_powMod hp base (by omega)).mpr hfull
  · intro q hq hdvd hone
    rw [← hproduct] at hdvd
    obtain ⟨power, hpower, hdvd⟩ := (Prime.dvd_prod_iff hq.prime).mp hdvd
    obtain ⟨factor, hfactor, rfl⟩ := List.mem_map.mp hpower
    obtain rfl : q = factor.1 :=
      (Nat.prime_dvd_prime_iff_eq hq (hprimes factor hfactor)).mp (hq.dvd_of_dvd_pow hdvd)
    exact hproper factor hfactor ((pow_eq_one_iff_powMod hp base (hfits _)).mp hone)

/--
Whether the certificates of a table hold, where each names only factors that
are known or that an earlier certificate is about.
-/
def tableHolds (known : List Nat) : List Certificate → Bool
  | [] => true
  | certificate :: table =>
      certificate.holds && certificate.factors.all (fun factor => known.contains factor.1)
        && tableHolds (certificate.number :: known) table

theorem prime_of_tableHolds {known : List Nat} (hknown : ∀ n ∈ known, n.Prime)
    {table : List Certificate} (htable : tableHolds known table = true) :
    ∀ certificate ∈ table, certificate.number.Prime := by
  induction table generalizing known with
  | nil => exact fun _ hmem => nomatch hmem
  | cons first table ih =>
      simp only [tableHolds, Bool.and_eq_true, List.all_eq_true, List.contains_iff_mem] at htable
      obtain ⟨⟨hholds, hfactors⟩, htable⟩ := htable
      have hfirst : first.number.Prime :=
        prime_of_holds hholds fun factor hfactor => hknown factor.1 (hfactors factor hfactor)
      intro certificate hmem
      rcases List.mem_cons.mp hmem with rfl | hmem
      · exact hfirst
      · refine ih (fun n hn => ?_) htable certificate hmem
        rcases List.mem_cons.mp hn with rfl | hn
        · exact hfirst
        · exact hknown n hn

def smallPrimes : List Nat :=
  [2, 3, 5, 7, 13, 19, 31, 47, 107, 127, 223, 353, 2437, 4153, 57467, 65147, 75707, 132049,
    430751, 569003, 1923133, 8574133]

theorem prime_of_mem_smallPrimes : ∀ n ∈ smallPrimes, n.Prime := by
  simp only [smallPrimes, List.forall_mem_cons]
  norm_num

/-- The certificate of the characteristic, after the ones of its large factors. -/
def table : List Certificate :=
  [⟨2773320623, 5, [(2, 1), (2437, 1), (569003, 1)]⟩,
    ⟨72106336199, 7, [(2, 1), (13, 1), (2773320623, 1)]⟩,
    ⟨1919519569386763, 2,
      [(2, 1), (3, 1), (7, 1), (19, 1), (47, 2), (127, 1), (8574133, 1)]⟩,
    ⟨31757755568855353, 10,
      [(2, 3), (3, 1), (31, 1), (107, 1), (223, 1), (4153, 1), (430751, 1)]⟩,
    ⟨75445702479781427272750846543864801, 7,
      [(2, 5), (3, 2), (5, 2), (75707, 1), (72106336199, 1), (1919519569386763, 1)]⟩,
    ⟨74058212732561358302231226437062788676166966415465897661863160754340907, 2,
      [(2, 1), (3, 1), (353, 1), (57467, 1), (132049, 1), (1923133, 1),
        (31757755568855353, 1), (75445702479781427272750846543864801, 1)]⟩,
    ⟨prime, 2,
      [(2, 2), (3, 1), (65147, 1),
        (74058212732561358302231226437062788676166966415465897661863160754340907, 1)]⟩]

theorem tableHolds_table : tableHolds smallPrimes table = true := by decide +kernel

end Certificate

theorem prime_prime : prime.Prime :=
  Certificate.prime_of_tableHolds Certificate.prime_of_mem_smallPrimes
    Certificate.tableHolds_table _ (List.mem_of_getLast? rfl)

instance : Fact prime.Prime := ⟨prime_prime⟩

/-! ## Residues -/

abbrev Residue := ZMod prime

namespace Residue

def edwardsD : Residue := Limbs.edwardsD.value

def root : Residue := Limbs.sqrtMinusOne.value

theorem val_lt_two_pow (r : Residue) : r.val < 2 ^ 255 :=
  Nat.lt_of_lt_of_le (ZMod.val_lt r) (by decide)

theorem two_pow_255 : (2 : Residue) ^ 255 = 19 := by
  have h : ((2 ^ 255 : Nat) : Residue) = (19 : Nat) :=
    (ZMod.natCast_eq_natCast_iff' _ _ _).mpr (by decide)
  exact_mod_cast h

theorem two_ne : (2 : Residue) ≠ 0 := by
  have h : ¬((2 : Nat) : Residue) = 0 := by
    rw [ZMod.natCast_eq_zero_iff]
    decide
  exact_mod_cast h

theorem root_sq : root ^ 2 = -1 := by
  have h : ((Limbs.sqrtMinusOne.value ^ 2 + 1 : Nat) : Residue) = 0 := by
    rw [ZMod.natCast_eq_zero_iff]
    decide
  rw [eq_neg_iff_add_eq_zero]
  exact_mod_cast h

theorem edwardsD_eq : 121666 * edwardsD = -121665 := by
  have h : ((121666 * Limbs.edwardsD.value + 121665 : Nat) : Residue) = 0 := by
    rw [ZMod.natCast_eq_zero_iff]
    decide
  rw [eq_neg_iff_add_eq_zero]
  exact_mod_cast h

theorem edwardsD_eq_div : edwardsD = -121665 / 121666 := by
  have hne : ¬((121666 : Nat) : Residue) = 0 := by
    rw [ZMod.natCast_eq_zero_iff]
    decide
  rw [eq_div_iff (by exact_mod_cast hne), mul_comm, edwardsD_eq]

theorem root_eq_pow : root = 2 ^ ((prime - 1) / 4) := by
  have hfits : (prime - 1) / 4 < 2 ^ 256 := by decide
  have hpower : powMod prime 2 256 ((prime - 1) / 4) = Limbs.sqrtMinusOne.value % prime := by
    decide +kernel
  rw [powMod_eq prime 2 hfits, ← ZMod.natCast_eq_natCast_iff'] at hpower
  rw [root, ← hpower, Nat.cast_pow, Nat.cast_ofNat]

/-- The curve constant is no square. -/
theorem not_isSquare_edwardsD : ¬IsSquare edwardsD := by
  rintro ⟨r, hr⟩
  have hsymbol : jacobiSym (-(121666 * 121665)) prime = -1 := by norm_num [prime]
  apply ZMod.nonsquare_of_jacobiSym_eq_neg_one hsymbol
  refine ⟨121666 * r, ?_⟩
  push_cast
  linear_combination 121666 ^ 2 * hr - 121666 * edwardsD_eq

end Residue

end LedgerTx.Curve
