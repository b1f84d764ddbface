import LedgerTx.Proofs.Curve.Order
import LedgerTx.Proofs.Key.Signature

/-!
# Valid signatures are determined by their first half

A check compares one multiple of the base point with what `R`, the key and
the message determine.  The scalar in the second half is reduced, so no two
of them give the same multiple, whatever point the key encodes.
-/

namespace LedgerTx

open Curve

/-! ## Halves -/

namespace Signature

theorem ext_halves {first second : Signature} (hr : first.r = second.r) (hs : first.s = second.s) :
    first = second := by
  obtain ⟨⟨first, hfirst⟩⟩ := first
  obtain ⟨⟨second, hsecond⟩⟩ := second
  have hfront : first.take 32 = second.take 32 := congrArg Block.bytes hr
  have hback : first.drop 32 = second.drop 32 := congrArg Block.bytes hs
  obtain rfl : first = second := by
    rw [← List.take_append_drop 32 first, hfront, hback, List.take_append_drop]
  rfl

end Signature

namespace Curve.Scalar

theorem ofCanonical?_eq_some {block : Block 32} {n : Nat} :
    ofCanonical? block = some n ↔ block.toNat < order ∧ block.toNat = n := by
  unfold ofCanonical?
  split
  · rename_i hlt
    rw [Option.some.injEq, and_iff_right hlt]
  · rename_i hge
    exact iff_of_false (fun h => nomatch h) fun h => hge h.1

end Curve.Scalar

/-! ## What a check says -/

namespace PublicKey

variable {key : PublicKey} {message : Bytes} {first second signature : Signature}

/-- The check for a key at hand, said of its affine point `A` and of the challenge `k`. -/
theorem holds_iff {point : Point} {A : Affine} (hA : point.Is A) :
    holds point key message signature = true ↔ signature.s.toNat < Scalar.order
      ∧ (signature.s.toNat • Affine.base
        - Signature.challenge signature.r key message • A).encode = signature.r := by
  have hchallenge : Signature.challenge signature.r key message < 2 ^ 256 := Scalar.ofBytes_lt _
  unfold holds
  generalize Signature.challenge signature.r key message = k at hchallenge ⊢
  cases hscalar : Scalar.ofCanonical? signature.s with
  | none =>
      refine iff_of_false Bool.false_ne_true fun h => ?_
      rw [Scalar.ofCanonical?_eq_some.mpr ⟨h.1, rfl⟩] at hscalar
      cases hscalar
  | some s =>
      obtain ⟨hlt, rfl⟩ := Scalar.ofCanonical?_eq_some.mp hscalar
      have hcompared := ((Point.mulBase_is (Nat.lt_trans hlt Scalar.order_lt)).sub
        (hA.mul hchallenge)).encode_eq
      simp only [Bool.and_eq_true, beq_iff_eq, hcompared]
      constructor
      · rintro ⟨-, hr⟩
        exact ⟨hlt, hr⟩
      · rintro ⟨-, hr⟩
        obtain ⟨decoded, hdecoded, -⟩ := Point.decode?_encode
          (signature.s.toNat • Affine.base - k • A)
        rw [hr] at hdecoded
        exact ⟨hdecoded ▸ rfl, hr⟩

/--
A valid signature has a reduced `S` and an `R` that is the compressed form of
`S B - k A`, for the affine point `A` of the key and the challenge `k`.
-/
theorem verify_eq_ok : key.verify message signature = .ok ()
    ↔ ∃ A : Affine, A.encode = key.block ∧ signature.s.toNat < Scalar.order
      ∧ (signature.s.toNat • Affine.base
        - Signature.challenge signature.r key message • A).encode = signature.r := by
  unfold verify
  cases hpoint : key.point? with
  | none =>
      refine iff_of_false (fun h => nomatch h) ?_
      rintro ⟨A, hA, -⟩
      obtain ⟨point, hfound, -⟩ := Point.decode?_encode A
      rw [hA] at hfound
      cases hpoint.symm.trans hfound
  | some point =>
      obtain ⟨A, hA, his⟩ := Point.exists_encode_of_decode? hpoint
      have hholds : (if holds point key message signature = true then Except.ok ()
          else .error KeyError.verification) = .ok () ↔ holds point key message signature = true := by
        split <;> simp_all
      rw [hholds, holds_iff his]
      constructor
      · intro h
        exact ⟨A, hA, h⟩
      · rintro ⟨A', hA', h⟩
        obtain rfl : A' = A := Affine.encode_injective (hA'.trans hA.symm)
        exact h

theorem s_eq_of_verify (hr : second.r = first.r) (hfirst : key.verify message first = .ok ())
    (hsecond : key.verify message second = .ok ()) : second.s = first.s := by
  obtain ⟨A, hA, hlt, hequation⟩ := verify_eq_ok.mp hfirst
  obtain ⟨A', hA', hlt', hequation'⟩ := verify_eq_ok.mp hsecond
  obtain rfl : A' = A := Affine.encode_injective (hA'.trans hA.symm)
  rw [hr] at hequation'
  have hmultiples := Affine.encode_injective (hequation'.trans hequation.symm)
  rw [sub_left_inj, Affine.nsmul_base_eq_iff, Nat.mod_eq_of_lt hlt, Nat.mod_eq_of_lt hlt']
    at hmultiples
  exact Block.eq_of_toNat_eq hmultiples

theorem verify_eq_error (haccepted : key.Accepted)
    (h : key.verify message signature ≠ .ok ()) :
    key.verify message signature = .error .verification := by
  obtain ⟨point, hpoint⟩ := Option.isSome_iff_exists.mp haccepted
  unfold verify at h ⊢
  rw [hpoint] at h ⊢
  dsimp only at h ⊢
  split at h
  · exact absurd rfl h
  · rename_i hholds
    exact if_neg hholds

/--
No other `S` is valid beside the one of a valid signature.  A signature of
the same message with the same `R` is valid exactly when it has the same `S`,
and any other `S` is refused, also one that differs by a multiple of the order.
-/
theorem verify_determines_s (hr : second.r = first.r) (h : key.verify message first = .ok ()) :
    (key.verify message second = .ok () ↔ second.s = first.s)
      ∧ (second.s ≠ first.s → key.verify message second = .error .verification) := by
  have hsame : key.verify message second = .ok () ↔ second.s = first.s := by
    constructor
    · exact s_eq_of_verify hr h
    · intro hs
      rw [Signature.ext_halves hr hs]
      exact h
  exact ⟨hsame, fun hs => verify_eq_error (accepted_of_verify h) (hsame.not.mpr hs)⟩

theorem verify_determines_s_shifted :
    ∃ (keys : KeyPair) (first second : Signature), keys.publicKey.verify [] first = .ok ()
      ∧ second.r = first.r ∧ second.s.toNat = first.s.toNat + Scalar.order
      ∧ keys.publicKey.verify [] second = .error .verification := by
  let keys : KeyPair := .generate .zero
  obtain ⟨first, hfirst⟩ : ∃ first, keys.publicKey.verify [] first = .ok () :=
    ⟨_, keys.verify_sign []⟩
  let shifted : Block 32 := .ofNat (first.s.toNat + Scalar.order)
  let second : Signature := ⟨first.r.append shifted⟩
  have hr : second.r = first.r := Block.front_append _ _ _
  have hs : second.s.toNat = first.s.toNat + Scalar.order := by
    obtain ⟨-, -, hlt, -⟩ := verify_eq_ok.mp hfirst
    have hbytes : second.s.bytes = shifted.bytes := Block.bytes_back_append _ _
    have hfits : first.s.toNat + Scalar.order < 256 ^ 32 :=
      Nat.lt_trans (Nat.add_lt_add_right hlt _) (by decide)
    rw [Block.toNat, hbytes]
    exact Block.toNat_ofNat hfits
  have hne : second.s ≠ first.s := by
    intro h
    rw [h] at hs
    have hpositive : 0 < Scalar.order := by decide
    omega
  exact ⟨keys, first, second, hfirst, hr, hs, (verify_determines_s hr hfirst).2 hne⟩

end PublicKey

end LedgerTx
