import LedgerTx.Cipher.Aes
import LedgerTx.Proofs.Bytes
import Mathlib.Data.Finite.Prod

/-!
# Decryption inverts encryption

Each step of a round has an inverse.  The boxes are checked byte by byte;
multiplication by a constant respects exclusive or, so the product of the two
mixing matrices is checked on one byte of a column at a time.  The rounds are
undone from the last to the first, under whatever round keys.  There are
finitely many blocks, so encryption undoes decryption as well.
-/

namespace LedgerTx.Cipher

/-! ## Bytes -/

theorem map_substitution :
    substitution.toList.map unsubByte = (List.range 256).map Nat.toUInt8 := by
  decide +kernel

theorem unsubByte_subByte (b : UInt8) : unsubByte (subByte b) = b := by
  have hlt : b.toNat < 256 := b.toNat_lt
  have hsize : b.toNat < substitution.toList.length := by
    have hlength := congrArg List.length map_substitution
    rw [List.length_map, List.length_map, List.length_range] at hlength
    rwa [hlength]
  have hat := congrArg (fun bytes => bytes[b.toNat]?) map_substitution
  rw [List.getElem?_map, List.getElem?_eq_getElem hsize, List.getElem?_map, List.getElem?_range hlt,
    Option.map_some, Option.map_some, Option.some_inj, Nat.toUInt8, UInt8.ofNat_toNat] at hat
  rw [subByte, Array.getD_eq_getD_getElem?, ← Array.getElem?_toList,
    List.getElem?_eq_getElem hsize, Option.getD_some, hat]

theorem and_xor_distrib (x y z : UInt8) : (x ^^^ y) &&& z = (x &&& z) ^^^ (y &&& z) := by
  apply UInt8.toNat_inj.mp
  simp only [UInt8.toNat_and, UInt8.toNat_xor, Nat.and_xor_distrib_right]

theorem xor_xor_xor_cancel (x y z : UInt8) : (x ^^^ z) ^^^ (y ^^^ z) = x ^^^ y := by
  calc (x ^^^ z) ^^^ (y ^^^ z)
      = x ^^^ y ^^^ (z ^^^ z) := by ac_rfl
    _ = x ^^^ y := by rw [UInt8.xor_self, UInt8.xor_zero]

theorem high_bit (b : UInt8) : b &&& 0x80 = 0 ∨ b &&& 0x80 = 0x80 := by
  have hall := forall_byte (p := fun b => b &&& 0x80 == 0 || b &&& 0x80 == 0x80)
    (by decide +kernel) b
  simpa using hall

theorem double_xor (x y : UInt8) : double (x ^^^ y) = double x ^^^ double y := by
  have hne : (0x80 : UInt8) ≠ 0 := by decide
  unfold double
  rw [and_xor_distrib, UInt8.shiftLeft_xor]
  rcases high_bit x with hx | hx <;> rcases high_bit y with hy | hy
  · simp only [hx, hy, UInt8.xor_self, if_true]
  · simp only [hx, hy, UInt8.zero_xor, if_neg hne, if_true, UInt8.xor_assoc]
  · simp only [hx, hy, UInt8.xor_zero, if_neg hne, if_true]
    ac_rfl
  -- both are reduced, and the two reductions cancel
  · simp only [hx, hy, UInt8.xor_self, if_neg hne, if_true]
    rw [xor_xor_xor_cancel]

theorem times_xor (factor x y : UInt8) :
    times factor (x ^^^ y) = times factor x ^^^ times factor y := by
  have hchoice (bit : UInt8) (x y : UInt8) : (if factor &&& bit = 0 then 0 else x ^^^ y)
      = (if factor &&& bit = 0 then 0 else x) ^^^ (if factor &&& bit = 0 then 0 else y) := by
    split
    · rfl
    · rfl
  simp only [times, double_xor, hchoice]
  ac_rfl

/-! ## Columns -/

namespace Column

theorem xor_xor_cancel (c d : Column) : (c.xor d).xor d = c := by
  simp only [xor, UInt8.xor_assoc, UInt8.xor_self, UInt8.xor_zero]

/--
One row of the product of the two mixing matrices: the byte on the diagonal
enters with the factor one, the other three with zero.
-/
theorem unmix_row (x y z w : UInt8) :
    times 14 (times 2 x ^^^ times 3 y ^^^ times 1 z ^^^ times 1 w)
      ^^^ times 11 (times 1 x ^^^ times 2 y ^^^ times 3 z ^^^ times 1 w)
      ^^^ times 13 (times 1 x ^^^ times 1 y ^^^ times 2 z ^^^ times 3 w)
      ^^^ times 9 (times 3 x ^^^ times 1 y ^^^ times 1 z ^^^ times 2 w) = x := by
  have hx := eq_of_beq (forall_byte (p := fun x => times 14 (times 2 x) ^^^ times 11 (times 1 x)
    ^^^ times 13 (times 1 x) ^^^ times 9 (times 3 x) == x) (by decide +kernel) x)
  have hy := eq_of_beq (forall_byte (p := fun y => times 14 (times 3 y) ^^^ times 11 (times 2 y)
    ^^^ times 13 (times 1 y) ^^^ times 9 (times 1 y) == 0) (by decide +kernel) y)
  have hz := eq_of_beq (forall_byte (p := fun z => times 14 (times 1 z) ^^^ times 11 (times 3 z)
    ^^^ times 13 (times 2 z) ^^^ times 9 (times 1 z) == 0) (by decide +kernel) z)
  have hw := eq_of_beq (forall_byte (p := fun w => times 14 (times 1 w) ^^^ times 11 (times 1 w)
    ^^^ times 13 (times 3 w) ^^^ times 9 (times 2 w) == 0) (by decide +kernel) w)
  calc
    _ = (times 14 (times 2 x) ^^^ times 11 (times 1 x) ^^^ times 13 (times 1 x)
          ^^^ times 9 (times 3 x))
        ^^^ (times 14 (times 3 y) ^^^ times 11 (times 2 y) ^^^ times 13 (times 1 y)
          ^^^ times 9 (times 1 y))
        ^^^ (times 14 (times 1 z) ^^^ times 11 (times 3 z) ^^^ times 13 (times 2 z)
          ^^^ times 9 (times 1 z))
        ^^^ (times 14 (times 1 w) ^^^ times 11 (times 1 w) ^^^ times 13 (times 3 w)
          ^^^ times 9 (times 2 w)) := by
      simp only [times_xor]
      ac_rfl
    _ = x := by
      rw [hx, hy, hz, hw, UInt8.xor_zero, UInt8.xor_zero, UInt8.xor_zero]

/-- The mixing matrices are circulant, so the other rows are the first one turned. -/
theorem unmix_mix (c : Column) : c.mix.unmix = c := by
  obtain ⟨x, y, z, w⟩ := c
  have hx := unmix_row x y z w
  have hy := unmix_row y z w x
  have hz := unmix_row z w x y
  have hw := unmix_row w x y z
  rw [mix, unmix, circulant, circulant, Column.mk.injEq]
  -- the summands of the other rows come in another order
  refine ⟨hx, Eq.trans ?_ hy, Eq.trans ?_ hz, Eq.trans ?_ hw⟩
  all_goals ac_rfl

theorem map_unsub_sub (c : Column) : (c.map subByte).map unsubByte = c := by
  simp only [map, unsubByte_subByte]

end Column

/-! ## Rounds -/

namespace CipherState

theorem xor_xor_cancel (s t : CipherState) : (s.xor t).xor t = s := by
  simp only [xor, Column.xor_xor_cancel]

theorem unsub_sub (s : CipherState) : s.sub.unsub = s := by
  simp only [sub, unsub, map, Column.map_unsub_sub]

theorem map_unmix_mix (s : CipherState) : (s.map .mix).map .unmix = s := by
  simp only [map, Column.unmix_mix]

theorem unround_round (s key : CipherState) : (s.round key).unround key = s := by
  rw [unround, round, xor_xor_cancel, map_unmix_mix, unshift_shift, unsub_sub]

theorem unlastRound_lastRound (s key : CipherState) :
    (s.lastRound key).unlastRound key = s := by
  rw [unlastRound, lastRound, xor_xor_cancel, unshift_shift, unsub_sub]

theorem foldr_unround_foldl_round (keys : List CipherState) (s : CipherState) :
    keys.foldr (fun key t => t.unround key) (keys.foldl .round s) = s := by
  induction keys generalizing s with
  | nil => rfl
  | cons key rest ih => rw [List.foldl_cons, List.foldr_cons, ih, unround_round]

end CipherState

theorem RoundKeys.decrypt_encrypt (keys : RoundKeys) (s : CipherState) :
    keys.decrypt (keys.encrypt s) = s := by
  rw [decrypt, encrypt, CipherState.unlastRound_lastRound, CipherState.foldr_unround_foldl_round,
    CipherState.xor_xor_cancel]

/-! ## The other order -/

instance : Finite Column :=
  .of_injective (fun c : Column => (c.b0.toFin, c.b1.toFin, c.b2.toFin, c.b3.toFin)) <| by
    rintro ⟨b0, b1, b2, b3⟩ ⟨d0, d1, d2, d3⟩ h
    simp only [Prod.mk.injEq, UInt8.toFin_inj] at h
    simpa only [Column.mk.injEq] using h

instance : Finite CipherState :=
  .of_injective (fun s : CipherState => (s.c0, s.c1, s.c2, s.c3)) <| by
    rintro ⟨c0, c1, c2, c3⟩ ⟨d0, d1, d2, d3⟩ h
    simpa only [CipherState.mk.injEq, Prod.mk.injEq] using h

/-- There are finitely many blocks, so encryption undoes decryption as well. -/
theorem RoundKeys.encrypt_decrypt (keys : RoundKeys) (s : CipherState) :
    keys.encrypt (keys.decrypt s) = s := by
  have hleft : Function.LeftInverse keys.decrypt keys.encrypt := keys.decrypt_encrypt
  have honto : Function.Surjective keys.encrypt :=
    Finite.injective_iff_surjective.mp hleft.injective
  exact hleft.rightInverse_of_surjective honto s

end LedgerTx.Cipher
