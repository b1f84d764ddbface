import LedgerTx.Mosaic
import LedgerTx.Proofs.Layout.FieldSet

/-!
# The search for a mosaic id

The search tries one nonce after the other and returns the first whose id is
not reserved.  What it found is found again from the nonce it returned.
-/

namespace LedgerTx

/-! ## Nonces in a row -/

namespace MosaicNonce

def after (start : MosaicNonce) (steps : Nat) : MosaicNonce := ⟨start.value + steps.toUInt32⟩

theorem after_zero (start : MosaicNonce) : start.after 0 = start := by
  simp [after]

theorem after_succ (start : MosaicNonce) (steps : Nat) :
    start.after (steps + 1) = start.next.after steps := by
  apply congrArg mk
  apply UInt32.toNat_inj.mp
  simp [next]
  omega

theorem toNat_after (start : MosaicNonce) (steps : Nat) :
    (start.after steps).value.toNat = (start.value.toNat + steps) % 2 ^ 32 := by
  simp [after]

end MosaicNonce

/-! ## The first usable nonce -/

namespace MosaicId

variable {owner : PublicKey} {reserved : MosaicId → Bool} {start : MosaicNonce}

/-- The nonce so many steps after the start is the first whose id is not reserved. -/
structure FirstFree (owner : PublicKey) (reserved : MosaicId → Bool) (start : MosaicNonce)
    (steps : Nat) : Prop where
  free : reserved (ofNonce owner (start.after steps)) = false
  taken : ∀ earlier < steps, reserved (ofNonce owner (start.after earlier)) = true

theorem firstFree_zero : FirstFree owner reserved start 0
    ↔ reserved (ofNonce owner start) = false := by
  constructor
  · intro h
    have hfree := h.free
    rwa [MosaicNonce.after_zero] at hfree
  · intro hfree
    refine ⟨?_, fun _ hearlier => absurd hearlier (Nat.not_lt_zero _)⟩
    rwa [MosaicNonce.after_zero]

theorem firstFree_succ {steps : Nat} : FirstFree owner reserved start (steps + 1)
    ↔ reserved (ofNonce owner start) = true ∧ FirstFree owner reserved start.next steps := by
  constructor
  · rintro ⟨hfree, htaken⟩
    have hstart := htaken 0 (Nat.succ_pos _)
    rw [MosaicNonce.after_zero] at hstart
    rw [MosaicNonce.after_succ] at hfree
    refine ⟨hstart, hfree, fun earlier hearlier => ?_⟩
    have hnext := htaken (earlier + 1) (Nat.succ_lt_succ hearlier)
    rwa [MosaicNonce.after_succ] at hnext
  · rintro ⟨hstart, hfree, htaken⟩
    rw [← MosaicNonce.after_succ] at hfree
    refine ⟨hfree, fun earlier hearlier => ?_⟩
    cases earlier with
    | zero =>
        rw [MosaicNonce.after_zero]
        exact hstart
    | succ earlier =>
        rw [MosaicNonce.after_succ]
        exact htaken earlier (Nat.lt_of_succ_lt_succ hearlier)

/-- No two nonces are the first usable one. -/
theorem FirstFree.unique {steps other : Nat} (h : FirstFree owner reserved start steps)
    (h' : FirstFree owner reserved start other) : steps = other := by
  rcases Nat.lt_trichotomy steps other with hlt | heq | hgt
  · cases h.free.symm.trans (h'.taken steps hlt)
  · exact heq
  · cases h'.free.symm.trans (h.taken other hgt)

theorem search_eq_some {attempts : Nat} {found : MosaicId × MosaicNonce} :
    search owner reserved attempts start = some found
      ↔ ∃ steps < attempts, FirstFree owner reserved start steps
        ∧ found = (ofNonce owner (start.after steps), start.after steps) := by
  induction attempts generalizing start with
  | zero => simp [search]
  | succ attempts ih =>
      rw [search]
      cases hstart : reserved (ofNonce owner start) with
      | true =>
          rw [if_pos rfl, ih]
          constructor
          · rintro ⟨steps, hlt, hfirst, rfl⟩
            refine ⟨steps + 1, Nat.succ_lt_succ hlt, firstFree_succ.mpr ⟨hstart, hfirst⟩, ?_⟩
            rw [MosaicNonce.after_succ]
          · rintro ⟨steps, hlt, hfirst, rfl⟩
            cases steps with
            | zero => cases hstart.symm.trans (firstFree_zero.mp hfirst)
            | succ steps =>
                refine ⟨steps, Nat.lt_of_succ_lt_succ hlt, (firstFree_succ.mp hfirst).2, ?_⟩
                rw [MosaicNonce.after_succ]
      | false =>
          rw [if_neg Bool.false_ne_true]
          constructor
          · intro h
            cases h
            refine ⟨0, Nat.succ_pos _, firstFree_zero.mpr hstart, ?_⟩
            rw [MosaicNonce.after_zero]
          · rintro ⟨steps, hlt, hfirst, rfl⟩
            cases hfirst.unique (firstFree_zero.mpr hstart)
            rw [MosaicNonce.after_zero]

theorem search_eq_none {attempts : Nat} : search owner reserved attempts start = none
    ↔ ∀ steps < attempts, reserved (ofNonce owner (start.after steps)) = true := by
  induction attempts generalizing start with
  | zero => simp [search]
  | succ attempts ih =>
      rw [search, Nat.forall_lt_succ_left, MosaicNonce.after_zero]
      simp only [MosaicNonce.after_succ]
      cases hstart : reserved (ofNonce owner start) with
      | true => rw [if_pos rfl, ih, and_iff_right rfl]
      | false => simp

/-! ## Derived ids -/

theorem deriveWith_eq_ok {found : MosaicId × MosaicNonce} :
    deriveWith reserved owner start = .ok found
      ↔ ∃ steps < maxAttempts, FirstFree owner reserved start steps
        ∧ found = (ofNonce owner (start.after steps), start.after steps) := by
  rw [← search_eq_some, deriveWith]
  cases search owner reserved maxAttempts start <;> simp

theorem deriveWith_eq_error {e : CollisionError} : deriveWith reserved owner start = .error e
    ↔ e = ⟨start, maxAttempts⟩
      ∧ ∀ steps < maxAttempts, reserved (ofNonce owner (start.after steps)) = true := by
  rw [← search_eq_none, deriveWith]
  cases search owner reserved maxAttempts start <;> simp [eq_comm]

theorem deriveWith_again {id : MosaicId} {nonce : MosaicNonce}
    (h : deriveWith reserved owner start = .ok (id, nonce)) :
    deriveWith reserved owner nonce = .ok (id, nonce) := by
  obtain ⟨steps, -, hfirst, hfound⟩ := deriveWith_eq_ok.mp h
  cases hfound
  refine deriveWith_eq_ok.mpr ⟨0, by decide, firstFree_zero.mpr hfirst.free, ?_⟩
  rw [MosaicNonce.after_zero]

end MosaicId

/-! ## The bit that tells ids apart -/

theorem Hash.toNat_word (digest : Block 32) :
    (word digest).toNat = LittleEndian.decode (digest.bytes.take 8) := by
  have hlt := LittleEndian.decode_lt (digest.bytes.take 8)
  rw [List.length_take, digest.length_bytes] at hlt
  exact Layout.toNat_toUInt64 hlt

/-- The id of a nonce is the number of the first eight bytes of its digest without bit 63. -/
theorem MosaicId.toNat_ofNonce (owner : PublicKey) (nonce : MosaicNonce) :
    (ofNonce owner nonce).value.toNat
      = LittleEndian.decode ((Hash.sha3_256 (LittleEndian.encode 4 nonce.value.toNat
        ++ owner.bytes)).bytes.take 8) % 2 ^ 63 := by
  have hmask : (~~~NamespaceId.flag).toNat = 2 ^ 63 - 1 := rfl
  rw [ofNonce, UInt64.toNat_and, hmask, Nat.and_two_pow_sub_one_eq_mod, Hash.toNat_word]
  rfl

end LedgerTx
