import LedgerTx.Proofs.Curve.Group
import Mathlib.GroupTheory.OrderOfElement

/-!
# The order of the base point

The scalars are integers modulo a prime, again by certificates after Lucas.
The base point is not neutral and this prime annihilates it, so the prime is
its order, and two reduced scalars never give the same multiple.
-/

namespace LedgerTx.Curve

namespace Scalar

/-! ## The order of the scalars is a prime -/

def smallFactors : List Nat :=
  [2, 3, 5, 7, 11, 23, 41, 43, 73, 269, 307, 1361, 2851, 5879, 30703, 82163, 132667, 137849, 531581,
    1224481, 14741173]

theorem prime_of_mem_smallFactors : ∀ n ∈ smallFactors, n.Prime := by
  simp only [smallFactors, List.forall_mem_cons]
  norm_num

/-- The certificate of the order, after the ones of its large factors. -/
def certificates : List Certificate :=
  [⟨58964693, 2, [(2, 2), (14741173, 1)]⟩,
    ⟨292386187, 2, [(2, 1), (3, 4), (307, 1), (5879, 1)]⟩,
    ⟨213441916511, 13, [(2, 1), (5, 1), (73, 1), (292386187, 1)]⟩,
    ⟨1257559732178653, 2, [(2, 2), (3, 1), (7, 1), (23, 1), (531581, 1), (1224481, 1)]⟩,
    ⟨4434155615661930479, 17, [(2, 1), (41, 1), (43, 1), (1257559732178653, 1)]⟩,
    ⟨3044861653679985063343, 5,
      [(2, 1), (3, 1), (11, 1), (30703, 1), (82163, 1), (132667, 1), (137849, 1)]⟩,
    ⟨172054593956031949258510691, 2,
      [(2, 1), (5, 1), (1361, 1), (2851, 1), (4434155615661930479, 1)]⟩,
    ⟨198211423230930754013084525763697, 5,
      [(2, 4), (3, 1), (23, 1), (58964693, 1), (3044861653679985063343, 1)]⟩,
    ⟨19757330305831588566944191468367130476339, 2,
      [(2, 1), (269, 1), (213441916511, 1), (172054593956031949258510691, 1)]⟩,
    ⟨276602624281642239937218680557139826668747, 2,
      [(2, 1), (7, 1), (19757330305831588566944191468367130476339, 1)]⟩,
    ⟨order, 2,
      [(2, 2), (3, 1), (11, 1), (198211423230930754013084525763697, 1),
        (276602624281642239937218680557139826668747, 1)]⟩]

theorem tableHolds_certificates : Certificate.tableHolds smallFactors certificates = true := by
  decide +kernel

/-- The scalars are integers modulo a prime. -/
theorem prime_order : order.Prime :=
  Certificate.prime_of_tableHolds prime_of_mem_smallFactors tableHolds_certificates _
    (List.mem_of_getLast? rfl)

end Scalar

/-! ## Multiples of the base point -/

namespace Affine

theorem base_ne_zero : base ≠ 0 := by
  have hcomputed : Point.base.same Point.identity = false := by decide +kernel
  intro hzero
  have hsame := (Point.base_is.same_iff Point.identity_is).mpr hzero
  exact Bool.noConfusion (hcomputed.symm.trans hsame)

theorem addOrderOf_base : addOrderOf base = Scalar.order :=
  have : Fact Scalar.order.Prime := ⟨Scalar.prime_order⟩
  addOrderOf_eq_prime Point.order_nsmul_base base_ne_zero

theorem nsmul_base_eq_iff {m n : Nat} :
    m • base = n • base ↔ m % Scalar.order = n % Scalar.order := by
  rw [nsmul_eq_nsmul_iff_modEq, addOrderOf_base]
  rfl

end Affine

end LedgerTx.Curve
