import LedgerTx.Proofs.Bytes
import LedgerTx.Proofs.Curve.Root

/-!
# Field arithmetic under overflow checks

The same algorithms with every word operation checked: a sum or product that
leaves its word, a difference below zero and a number cut to a narrower word
each stop the computation.  On bounded limbs no check ever stops it, so the
limb operations are exact word arithmetic.
-/

namespace LedgerTx.Curve

/-! ## Checked words -/

theorem bind_of_eq_some {α β : Type} {x : Option α} {a : α} {f : α → Option β} (h : x = some a) :
    (x >>= f) = f a := by
  rw [h]
  rfl

namespace Word

def ofNat? (n : Nat) : Option UInt64 :=
  if n < 2 ^ 64 then some n.toUInt64 else none

def add? (v w : UInt64) : Option UInt64 :=
  ofNat? (v.toNat + w.toNat)

def sub? (v w : UInt64) : Option UInt64 :=
  if w.toNat ≤ v.toNat then some (v - w) else none

def mul? (v w : UInt64) : Option UInt64 :=
  ofNat? (v.toNat * w.toNat)

variable {v w : UInt64} {n : Nat}

theorem ofNat?_eq (hn : n < 2 ^ 64) (hw : w.toNat = n) : ofNat? n = some w := by
  rw [ofNat?, if_pos hn, Option.some.injEq, ← UInt64.toNat_inj, hw]
  exact Nat.mod_eq_of_lt hn

theorem add?_eq (h : v.toNat + w.toNat < 2 ^ 64) : add? v w = some (v + w) :=
  ofNat?_eq h (Limbs.toNat_add h)

theorem sub?_eq (h : w.toNat ≤ v.toNat) : sub? v w = some (v - w) :=
  if_pos h

theorem mul?_eq (h : v.toNat * w.toNat < 2 ^ 64) : mul? v w = some (v * w) :=
  ofNat?_eq h (Limbs.toNat_mul h)

end Word

namespace Wide

def ofNat? (n : Nat) : Option Nat :=
  if n < 2 ^ 128 then some n else none

def add? (m n : Nat) : Option Nat :=
  ofNat? (m + n)

def mul? (v w : UInt64) : Option Nat :=
  ofNat? (v.toNat * w.toNat)

/-- The sum of the products of some pairs of words, added to a first number one by one. -/
def sum? : (first : Nat) → List (UInt64 × UInt64) → Option Nat
  | first, [] => some first
  | first, (v, w) :: rest => do
      let product ← mul? v w
      let next ← add? first product
      sum? next rest

theorem mul?_eq (v w : UInt64) : mul? v w = some (Limbs.wide v w) := by
  have hlt : v.toNat * w.toNat < 2 ^ 64 * 2 ^ 64 :=
    Nat.mul_lt_mul'' v.toNat_lt w.toNat_lt
  exact if_pos hlt

theorem add?_eq {m n : Nat} (h : m + n < 2 ^ 128) : add? m n = some (m + n) :=
  if_pos h

theorem sum?_eq {first : Nat} {pairs : List (UInt64 × UInt64)}
    (h : pairs.foldl (fun sum pair => sum + Limbs.wide pair.1 pair.2) first < 2 ^ 128) :
    sum? first pairs = some (pairs.foldl (fun sum pair => sum + Limbs.wide pair.1 pair.2) first) := by
  induction pairs generalizing first with
  | nil => rfl
  | cons pair rest ih =>
      have hmono (sum : Nat) (rest : List (UInt64 × UInt64)) :
          sum ≤ rest.foldl (fun sum pair => sum + Limbs.wide pair.1 pair.2) sum := by
        induction rest generalizing sum with
        | nil => exact le_rfl
        | cons pair rest ih => exact (Nat.le_add_right _ _).trans (ih _)
      have hnext := (hmono (first + Limbs.wide pair.1 pair.2) rest).trans_lt h
      rw [sum?, bind_of_eq_some (mul?_eq _ _), bind_of_eq_some (add?_eq hnext)]
      exact ih h

end Wide

namespace Limbs.Checked

open Word

/-! ## The checked algorithms -/

def load8 (block : Block 32) (start : Nat) : Option UInt64 :=
  if start + 8 ≤ 32 then some (LittleEndian.decode ((block.bytes.drop start).take 8)).toUInt64
  else none

/-- Each limb is cut from the eight bytes around it; bit 255 is cut off. -/
def ofBlock (block : Block 32) : Option Limbs := do
  let w0 ← load8 block 0
  let w1 ← load8 block 6
  let w2 ← load8 block 12
  let w3 ← load8 block 19
  let w4 ← load8 block 24
  return ⟨w0 &&& mask, w1 >>> 3 &&& mask, w2 >>> 6 &&& mask, w3 >>> 1 &&& mask, w4 >>> 12 &&& mask⟩

/-- Either limb under a word that is all ones when the choice is true, and zero when it is not. -/
def select (a b : Limbs) (choice : Bool) : Limbs :=
  let chosen := -choice.toUInt64
  ⟨a.l0 ^^^ chosen &&& (a.l0 ^^^ b.l0), a.l1 ^^^ chosen &&& (a.l1 ^^^ b.l1),
    a.l2 ^^^ chosen &&& (a.l2 ^^^ b.l2), a.l3 ^^^ chosen &&& (a.l3 ^^^ b.l3),
    a.l4 ^^^ chosen &&& (a.l4 ^^^ b.l4)⟩

def carry (a : Limbs) : Option Limbs := do
  let returned ← mul? (a.l4 >>> 51) 19
  let l0 ← add? (a.l0 &&& mask) returned
  let l1 ← add? (a.l1 &&& mask) (a.l0 >>> 51)
  let l2 ← add? (a.l2 &&& mask) (a.l1 >>> 51)
  let l3 ← add? (a.l3 &&& mask) (a.l2 >>> 51)
  let l4 ← add? (a.l4 &&& mask) (a.l3 >>> 51)
  return ⟨l0, l1, l2, l3, l4⟩

def add (a b : Limbs) : Option Limbs := do
  let l0 ← add? a.l0 b.l0
  let l1 ← add? a.l1 b.l1
  let l2 ← add? a.l2 b.l2
  let l3 ← add? a.l3 b.l3
  let l4 ← add? a.l4 b.l4
  carry ⟨l0, l1, l2, l3, l4⟩

def offsetSub (v offset w : UInt64) : Option UInt64 := do
  let raised ← add? v offset
  sub? raised w

def sub (a b : Limbs) : Option Limbs := do
  let l0 ← offsetSub a.l0 36028797018963664 b.l0
  let l1 ← offsetSub a.l1 36028797018963952 b.l1
  let l2 ← offsetSub a.l2 36028797018963952 b.l2
  let l3 ← offsetSub a.l3 36028797018963952 b.l3
  let l4 ← offsetSub a.l4 36028797018963952 b.l4
  carry ⟨l0, l1, l2, l3, l4⟩

def neg (a : Limbs) : Option Limbs :=
  sub zero a

/-- Carries five column sums upwards; the lowest 51 bits of each are cut to a word. -/
def gather (s0 s1 s2 s3 s4 : Nat) : Option Limbs := do
  let c1 ← Wide.add? s1 (s0 >>> 51)
  let r0 ← ofNat? (s0 % 2 ^ 51)
  let c2 ← Wide.add? s2 (c1 >>> 51)
  let r1 ← ofNat? (c1 % 2 ^ 51)
  let c3 ← Wide.add? s3 (c2 >>> 51)
  let r2 ← ofNat? (c2 % 2 ^ 51)
  let c4 ← Wide.add? s4 (c3 >>> 51)
  let r3 ← ofNat? (c3 % 2 ^ 51)
  let top ← ofNat? (c4 >>> 51)
  let r4 ← ofNat? (c4 % 2 ^ 51)
  let returned ← mul? top 19
  let low ← add? r0 returned
  let l1 ← add? r1 (low >>> 51)
  return ⟨low &&& mask, l1, r2, r3, r4⟩

def mul (a b : Limbs) : Option Limbs := do
  let b1 ← mul? b.l1 19
  let b2 ← mul? b.l2 19
  let b3 ← mul? b.l3 19
  let b4 ← mul? b.l4 19
  let s0 ← Wide.sum? 0 [(a.l0, b.l0), (a.l4, b1), (a.l3, b2), (a.l2, b3), (a.l1, b4)]
  let s1 ← Wide.sum? 0 [(a.l1, b.l0), (a.l0, b.l1), (a.l4, b2), (a.l3, b3), (a.l2, b4)]
  let s2 ← Wide.sum? 0 [(a.l2, b.l0), (a.l1, b.l1), (a.l0, b.l2), (a.l4, b3), (a.l3, b4)]
  let s3 ← Wide.sum? 0 [(a.l3, b.l0), (a.l2, b.l1), (a.l1, b.l2), (a.l0, b.l3), (a.l4, b4)]
  let s4 ← Wide.sum? 0 [(a.l4, b.l0), (a.l3, b.l1), (a.l2, b.l2), (a.l1, b.l3), (a.l0, b.l4)]
  gather s0 s1 s2 s3 s4

def square (a : Limbs) : Option Limbs :=
  mul a a

def squarings (a : Limbs) : Nat → Option Limbs
  | 0 => some a
  | k + 1 => do
      let b ← squarings a k
      square b

def pow2k (a : Limbs) (k : Nat) : Option Limbs :=
  squarings a (max k 1)

def pow2kMul (a : Limbs) (k : Nat) (b : Limbs) : Option Limbs := do
  let power ← pow2k a k
  mul power b

def powChain (a : Limbs) : Option (Limbs × Limbs) := do
  let t0 ← square a
  let t1 ← pow2k t0 2
  let t2 ← mul a t1
  let t3 ← mul t0 t2
  let t4 ← square t3
  let t5 ← mul t2 t4
  let t7 ← pow2kMul t5 5 t5
  let t9 ← pow2kMul t7 10 t7
  let t11 ← pow2kMul t9 20 t9
  let t13 ← pow2kMul t11 10 t7
  let t15 ← pow2kMul t13 50 t13
  let t17 ← pow2kMul t15 100 t15
  let t19 ← pow2kMul t17 50 t13
  return (t19, t3)

def invert (a : Limbs) : Option Limbs := do
  let chain ← powChain a
  pow2kMul chain.1 5 chain.2

def powRoot (a : Limbs) : Option Limbs := do
  let chain ← powChain a
  let t ← pow2k chain.1 2
  mul a t

/-! ## The checked canonical form -/

def excess (a : Limbs) : Option UInt64 := do
  let r0 ← add? a.l0 19
  let r1 ← add? a.l1 (r0 >>> 51)
  let r2 ← add? a.l2 (r1 >>> 51)
  let r3 ← add? a.l3 (r2 >>> 51)
  let r4 ← add? a.l4 (r3 >>> 51)
  return r4 >>> 51

def settle (a : Limbs) : Option Limbs := do
  let r1 ← add? a.l1 (a.l0 >>> 51)
  let r2 ← add? a.l2 (r1 >>> 51)
  let r3 ← add? a.l3 (r2 >>> 51)
  let r4 ← add? a.l4 (r3 >>> 51)
  return ⟨a.l0 &&& mask, r1 &&& mask, r2 &&& mask, r3 &&& mask, r4 &&& mask⟩

def canonical (a : Limbs) : Option Limbs := do
  let c ← carry a
  let q ← excess c
  let returned ← mul? 19 q
  let l0 ← add? c.l0 returned
  settle { c with l0 := l0 }

/--
Limbs of 51 bits as bytes.  The accumulator holds `bits` bits that are not
written yet; each limb enters above them, and the whole bytes are written.
What is left at the end has to fit one byte.
-/
def pack : List UInt64 → (pending bits : Nat) → Option Bytes
  | [], pending, _ => if pending < 256 then some [pending.toUInt8] else none
  | limb :: rest, pending, bits => do
      let filled ← Wide.ofNat? (limb.toNat <<< bits ||| pending)
      let count := (bits + 51) / 8
      let tail ← pack rest (filled / 256 ^ count) ((bits + 51) % 8)
      return LittleEndian.encode count filled ++ tail

def toBytes (a : Limbs) : Option Bytes := do
  let c ← canonical a
  pack [c.l0, c.l1, c.l2, c.l3, c.l4] 0 0

def sameBytes (a b : Bytes) : Bool :=
  a.length == b.length && (Bytes.xor a b).foldl (· ||| ·) 0 == 0

def same (a b : Limbs) : Option Bool := do
  let left ← toBytes a
  let right ← toBytes b
  return sameBytes left right

def isNegative (a : Limbs) : Option Bool := do
  let bytes ← toBytes a
  return bytes.headD 0 &&& 1 == 1

def sqrtRatio (u v : Limbs) : Option (Bool × Limbs) := do
  let v2 ← square v
  let v3 ← mul v2 v
  let v6 ← square v3
  let v7 ← mul v6 v
  let scaled ← mul u v3
  let argument ← mul u v7
  let power ← powRoot argument
  let root ← mul scaled power
  let rootSquare ← square root
  let check ← mul v rootSquare
  let opposite ← neg u
  let direct ← same check u
  let flipped ← same check opposite
  let twist ← mul opposite sqrtMinusOne
  let twisted ← same check twist
  let turn ← mul sqrtMinusOne root
  let turned := select root turn (flipped || twisted)
  let turnedOpposite ← neg turned
  let negative ← isNegative turned
  return (direct || flipped, select turned turnedOpposite negative)

/-! ## Words of bytes and masks -/

theorem load8_eq (block : Block 32) {start : Nat} (h : start + 8 ≤ 32) :
    load8 block start = some (block.toNat / 256 ^ start % 2 ^ 64).toUInt64 := by
  rw [load8, if_pos h, LittleEndian.decode_take, LittleEndian.decode_drop]
  rfl

/-- A window of 51 bits of a number, cut from a word that holds it. -/
theorem window_eq (n start position : Nat) (shift : UInt64) (h : shift.toNat ≤ 13)
    (hposition : position = 8 * start + shift.toNat) :
    (n / 256 ^ start % 2 ^ 64).toUInt64 >>> shift &&& mask
      = (n / 2 ^ position % 2 ^ 51).toUInt64 := by
  have hword : (n / 256 ^ start % 2 ^ 64).toUInt64.toNat = n / 256 ^ start % 2 ^ 64 :=
    Nat.mod_mod_of_dvd _ (dvd_refl _)
  have hshift : shift.toNat % 64 = shift.toNat := Nat.mod_eq_of_lt (by omega)
  have hsplit : 2 ^ 64 = 2 ^ shift.toNat * 2 ^ (64 - shift.toNat) := by
    rw [← Nat.pow_add]
    congr 1
    omega
  have hdvd : 2 ^ 51 ∣ 2 ^ (64 - shift.toNat) := Nat.pow_dvd_pow 2 (by omega)
  have hstart : 256 ^ start * 2 ^ shift.toNat = 2 ^ position := by
    rw [hposition, Nat.pow_add, Nat.pow_mul]
  apply UInt64.toNat_inj.mp
  rw [toNat_and_mask, UInt64.toNat_shiftRight, hword, hshift, Nat.shiftRight_eq_div_pow, hsplit,
    Nat.mod_mul_right_div_self, Nat.mod_mod_of_dvd _ hdvd, Nat.div_div_eq_div_mul, hstart]
  have hlt : n / 2 ^ position % 2 ^ 51 < 2 ^ 51 := Nat.mod_lt _ (by decide)
  exact (Nat.mod_eq_of_lt (by omega)).symm

theorem ofBlock_eq (block : Block 32) : ofBlock block = some (Limbs.ofBlock block) := by
  have h0 := window_eq block.toNat 0 0 0 (by decide) (by decide)
  rw [UInt64.shiftRight_zero, Nat.pow_zero 2, Nat.div_one] at h0
  have h1 := window_eq block.toNat 6 51 3 (by decide) (by decide)
  have h2 := window_eq block.toNat 12 102 6 (by decide) (by decide)
  have h3 := window_eq block.toNat 19 153 1 (by decide) (by decide)
  have h4 := window_eq block.toNat 24 204 12 (by decide) (by decide)
  rw [ofBlock, bind_of_eq_some (load8_eq block (by decide)),
    bind_of_eq_some (load8_eq block (by decide)), bind_of_eq_some (load8_eq block (by decide)),
    bind_of_eq_some (load8_eq block (by decide)), bind_of_eq_some (load8_eq block (by decide)),
    h0, h1, h2, h3, h4]
  rfl

theorem select_eq (a b : Limbs) (choice : Bool) : select a b choice = Limbs.select a b choice := by
  have hlimb (v w : UInt64) : v ^^^ -choice.toUInt64 &&& (v ^^^ w) = if choice then w else v := by
    cases choice with
    | false =>
        have hmask : -false.toUInt64 = 0 := rfl
        rw [hmask, UInt64.zero_and, UInt64.xor_zero]
        rfl
    | true =>
        have hmask : -true.toUInt64 = -1 := rfl
        rw [hmask, UInt64.neg_one_and, ← UInt64.xor_assoc, UInt64.xor_self, UInt64.zero_xor]
        rfl
  simp only [select, hlimb]
  cases choice <;> rfl

/-! ## No check stops -/

section Unchecked

variable {a b : Limbs}

theorem carry_eq (a : Limbs) : carry a = some a.carry := by
  have h0 := a.l0.toNat_lt
  have h1 := a.l1.toNat_lt
  have h2 := a.l2.toNat_lt
  have h3 := a.l3.toNat_lt
  have h4 := a.l4.toNat_lt
  have hconst : (19 : UInt64).toNat = 19 := rfl
  have htop : (a.l4 >>> 51).toNat * (19 : UInt64).toNat < 2 ^ 64 := by
    rw [toNat_shiftRight, hconst]
    omega
  have hlow : (a.l0 &&& mask).toNat + ((a.l4 >>> 51) * 19).toNat < 2 ^ 64 := by
    rw [toNat_mul htop, toNat_and_mask, toNat_shiftRight, hconst]
    omega
  have hcarried (low high : UInt64) : (low &&& mask).toNat + (high >>> 51).toNat < 2 ^ 64 := by
    have hhigh := high.toNat_lt
    rw [toNat_and_mask, toNat_shiftRight]
    omega
  rw [carry, bind_of_eq_some (mul?_eq htop), bind_of_eq_some (add?_eq hlow),
    bind_of_eq_some (add?_eq (hcarried a.l1 a.l0)), bind_of_eq_some (add?_eq (hcarried a.l2 a.l1)),
    bind_of_eq_some (add?_eq (hcarried a.l3 a.l2)), bind_of_eq_some (add?_eq (hcarried a.l4 a.l3))]
  rfl

theorem add_eq (ha : a.Bounded) (hb : b.Bounded) : add a b = some (a + b) := by
  obtain ⟨ha0, ha1, ha2, ha3, ha4⟩ := ha
  obtain ⟨hb0, hb1, hb2, hb3, hb4⟩ := hb
  have hlt {v w : UInt64} (hv : v.toNat < 2 ^ 52) (hw : w.toNat < 2 ^ 52) :
      v.toNat + w.toNat < 2 ^ 64 := by
    omega
  rw [add, bind_of_eq_some (add?_eq (hlt ha0 hb0)), bind_of_eq_some (add?_eq (hlt ha1 hb1)),
    bind_of_eq_some (add?_eq (hlt ha2 hb2)), bind_of_eq_some (add?_eq (hlt ha3 hb3)),
    bind_of_eq_some (add?_eq (hlt ha4 hb4))]
  exact carry_eq _

/-- A constant of at least `2 ^ 52` keeps the difference of two limbs from underflowing. -/
theorem offsetSub_eq {v offset w : UInt64} (hv : v.toNat < 2 ^ 52) (hw : w.toNat < 2 ^ 52)
    (hlow : 2 ^ 52 ≤ offset.toNat) (hhigh : offset.toNat < 2 ^ 63) :
    offsetSub v offset w = some (v + offset - w) := by
  have hsum : v.toNat + offset.toNat < 2 ^ 64 := by omega
  have hle : w.toNat ≤ (v + offset).toNat := by
    rw [toNat_add hsum]
    omega
  rw [offsetSub, bind_of_eq_some (add?_eq hsum), sub?_eq hle]

theorem sub_eq (ha : a.Bounded) (hb : b.Bounded) : sub a b = some (a - b) := by
  obtain ⟨ha0, ha1, ha2, ha3, ha4⟩ := ha
  obtain ⟨hb0, hb1, hb2, hb3, hb4⟩ := hb
  have hlow : (36028797018963664 : UInt64).toNat = 36028797018963664 := rfl
  have hhigh : (36028797018963952 : UInt64).toNat = 36028797018963952 := rfl
  have hfirst {v w : UInt64} (hv : v.toNat < 2 ^ 52) (hw : w.toNat < 2 ^ 52) :
      offsetSub v 36028797018963664 w = some (v + 36028797018963664 - w) :=
    offsetSub_eq hv hw (by rw [hlow]; omega) (by rw [hlow]; omega)
  have hother {v w : UInt64} (hv : v.toNat < 2 ^ 52) (hw : w.toNat < 2 ^ 52) :
      offsetSub v 36028797018963952 w = some (v + 36028797018963952 - w) :=
    offsetSub_eq hv hw (by rw [hhigh]; omega) (by rw [hhigh]; omega)
  rw [sub, bind_of_eq_some (hfirst ha0 hb0), bind_of_eq_some (hother ha1 hb1),
    bind_of_eq_some (hother ha2 hb2), bind_of_eq_some (hother ha3 hb3),
    bind_of_eq_some (hother ha4 hb4)]
  exact carry_eq _

theorem neg_eq (ha : a.Bounded) : neg a = some (-a) :=
  sub_eq bounded_zero ha

theorem gather_eq {s0 s1 s2 s3 s4 : Nat} (h0 : s0 < 2 ^ 113) (h1 : s1 < 2 ^ 113)
    (h2 : s2 < 2 ^ 113) (h3 : s3 < 2 ^ 113) (h4 : s4 < 2 ^ 108) :
    gather s0 s1 s2 s3 s4 = some (Limbs.gather s0 s1 s2 s3 s4) := by
  have hcut (n : Nat) : ofNat? (n % 2 ^ 51) = some (n.toUInt64 &&& mask) :=
    ofNat?_eq (by omega) (toNat_toUInt64_and_mask n)
  obtain ⟨c1, hc1⟩ : ∃ c1, c1 = s1 + s0 >>> 51 := ⟨_, rfl⟩
  obtain ⟨c2, hc2⟩ : ∃ c2, c2 = s2 + c1 >>> 51 := ⟨_, rfl⟩
  obtain ⟨c3, hc3⟩ : ∃ c3, c3 = s3 + c2 >>> 51 := ⟨_, rfl⟩
  obtain ⟨c4, hc4⟩ : ∃ c4, c4 = s4 + c3 >>> 51 := ⟨_, rfl⟩
  have hshift (n : Nat) : n >>> 51 = n / 2 ^ 51 := Nat.shiftRight_eq_div_pow n 51
  have hs1 := Wide.add?_eq (m := s1) (n := s0 >>> 51) (by rw [hshift]; omega)
  have hs2 := Wide.add?_eq (m := s2) (n := c1 >>> 51) (by rw [hc1, hshift, hshift]; omega)
  have hs3 := Wide.add?_eq (m := s3) (n := c2 >>> 51)
    (by rw [hc2, hc1, hshift, hshift, hshift]; omega)
  have hs4 := Wide.add?_eq (m := s4) (n := c3 >>> 51)
    (by rw [hc3, hc2, hc1, hshift, hshift, hshift, hshift]; omega)
  have htop : c4 >>> 51 < 2 ^ 58 := by
    rw [hc4, hc3, hc2, hc1, hshift, hshift, hshift, hshift, hshift]
    omega
  have hword : (c4 >>> 51).toUInt64.toNat = c4 >>> 51 :=
    Nat.mod_eq_of_lt (by omega)
  have hcarry := ofNat?_eq (by omega) hword
  have hconst : (19 : UInt64).toNat = 19 := rfl
  have hreturn : (c4 >>> 51).toUInt64.toNat * (19 : UInt64).toNat < 2 ^ 64 := by
    rw [hword, hconst]
    omega
  have hlow : (s0.toUInt64 &&& mask).toNat + ((c4 >>> 51).toUInt64 * 19).toNat < 2 ^ 64 := by
    rw [toNat_mul hreturn, hword, hconst, toNat_toUInt64_and_mask]
    omega
  have hsecond (w : UInt64) : (c1.toUInt64 &&& mask).toNat + (w >>> 51).toNat < 2 ^ 64 := by
    have hw := w.toNat_lt
    rw [toNat_toUInt64_and_mask, toNat_shiftRight]
    omega
  rw [← hc1] at hs1
  rw [← hc2] at hs2
  rw [← hc3] at hs3
  rw [← hc4] at hs4
  rw [gather, bind_of_eq_some hs1, bind_of_eq_some (hcut s0), bind_of_eq_some hs2,
    bind_of_eq_some (hcut c1), bind_of_eq_some hs3, bind_of_eq_some (hcut c2),
    bind_of_eq_some hs4, bind_of_eq_some (hcut c3), bind_of_eq_some hcarry,
    bind_of_eq_some (hcut c4), bind_of_eq_some (mul?_eq hreturn), bind_of_eq_some (add?_eq hlow),
    bind_of_eq_some (add?_eq (hsecond _)), hc4, hc3, hc2, hc1]
  rfl

theorem column_eq {x0 x1 x2 x3 x4 y0 y1 y2 y3 y4 : UInt64} {bound : Nat} (hbound : bound ≤ 2 ^ 128)
    (h : wide x0 y0 + wide x1 y1 + wide x2 y2 + wide x3 y3 + wide x4 y4 < bound) :
    Wide.sum? 0 [(x0, y0), (x1, y1), (x2, y2), (x3, y3), (x4, y4)]
      = some (wide x0 y0 + wide x1 y1 + wide x2 y2 + wide x3 y3 + wide x4 y4) := by
  rw [← Nat.zero_add (wide x0 y0)] at h ⊢
  exact Wide.sum?_eq (h.trans_le hbound)

theorem mul_eq (ha : a.Bounded) (hb : b.Bounded) : mul a b = some (a * b) := by
  have hconst : (19 : UInt64).toNat = 19 := rfl
  have hnineteen {w : UInt64} (hw : w.toNat < 2 ^ 52) : mul? w 19 = some (w * 19) := by
    apply mul?_eq
    rw [hconst]
    omega
  obtain ⟨h0, h1, h2, h3, h4⟩ := columns_lt ha hb
  have hwide : 2 ^ 113 ≤ 2 ^ 128 := by omega
  have hnarrow : 2 ^ 108 ≤ 2 ^ 128 := by omega
  rw [mul, bind_of_eq_some (hnineteen hb.l1), bind_of_eq_some (hnineteen hb.l2),
    bind_of_eq_some (hnineteen hb.l3), bind_of_eq_some (hnineteen hb.l4),
    bind_of_eq_some (column_eq hwide h0), bind_of_eq_some (column_eq hwide h1),
    bind_of_eq_some (column_eq hwide h2), bind_of_eq_some (column_eq hwide h3),
    bind_of_eq_some (column_eq hnarrow h4)]
  exact gather_eq h0 h1 h2 h3 h4

end Unchecked

/-! ## Powers -/

section Powers

variable {a b : Limbs}

theorem square_eq (ha : a.Bounded) : square a = some a.square :=
  mul_eq ha ha

theorem bounded_square (ha : a.Bounded) : a.square.Bounded :=
  (mul_spec ha ha).1

theorem bounded_squarings (ha : a.Bounded) (k : Nat) : (a.squarings k).Bounded := by
  induction k with
  | zero => exact ha
  | succ k ih => exact bounded_square ih

theorem squarings_eq (ha : a.Bounded) (k : Nat) : squarings a k = some (a.squarings k) := by
  induction k with
  | zero => rfl
  | succ k ih =>
      rw [squarings, bind_of_eq_some ih]
      exact square_eq (bounded_squarings ha k)

theorem bounded_pow2k (ha : a.Bounded) (k : Nat) : (a.pow2k k).Bounded :=
  bounded_squarings ha _

theorem pow2k_eq (ha : a.Bounded) (k : Nat) : pow2k a k = some (a.pow2k k) :=
  squarings_eq ha _

theorem bounded_mul (ha : a.Bounded) (hb : b.Bounded) : (a * b).Bounded :=
  (mul_spec ha hb).1

theorem pow2kMul_eq (ha : a.Bounded) (k : Nat) (hb : b.Bounded) :
    pow2kMul a k b = some (a.pow2k k * b) := by
  rw [pow2kMul, bind_of_eq_some (pow2k_eq ha k)]
  exact mul_eq (bounded_pow2k ha k) hb

theorem bounded_pow2kMul (ha : a.Bounded) (k : Nat) (hb : b.Bounded) :
    (a.pow2k k * b).Bounded :=
  bounded_mul (bounded_pow2k ha k) hb

theorem powChain_eq (ha : a.Bounded) : powChain a = some a.powChain := by
  have h0 := bounded_square ha
  have h1 := bounded_pow2k h0 2
  have h2 := bounded_mul ha h1
  have h3 := bounded_mul h0 h2
  have h4 := bounded_square h3
  have h5 := bounded_mul h2 h4
  have h7 := bounded_pow2kMul h5 5 h5
  have h9 := bounded_pow2kMul h7 10 h7
  have h11 := bounded_pow2kMul h9 20 h9
  have h13 := bounded_pow2kMul h11 10 h7
  have h15 := bounded_pow2kMul h13 50 h13
  have h17 := bounded_pow2kMul h15 100 h15
  rw [powChain, bind_of_eq_some (square_eq ha), bind_of_eq_some (pow2k_eq h0 2),
    bind_of_eq_some (mul_eq ha h1), bind_of_eq_some (mul_eq h0 h2),
    bind_of_eq_some (square_eq h3), bind_of_eq_some (mul_eq h2 h4),
    bind_of_eq_some (pow2kMul_eq h5 5 h5), bind_of_eq_some (pow2kMul_eq h7 10 h7),
    bind_of_eq_some (pow2kMul_eq h9 20 h9), bind_of_eq_some (pow2kMul_eq h11 10 h7),
    bind_of_eq_some (pow2kMul_eq h13 50 h13), bind_of_eq_some (pow2kMul_eq h15 100 h15),
    bind_of_eq_some (pow2kMul_eq h17 50 h13)]
  rfl

theorem invert_eq (ha : a.Bounded) : invert a = some a.invert := by
  have hchain := Represents.powChain ⟨ha, rfl⟩
  rw [invert, bind_of_eq_some (powChain_eq ha)]
  exact pow2kMul_eq hchain.1.bounded 5 hchain.2.bounded

theorem powRoot_eq (ha : a.Bounded) : powRoot a = some a.powRoot := by
  have hhigh := (Represents.powChain ⟨ha, rfl⟩).1.bounded
  rw [powRoot, bind_of_eq_some (powChain_eq ha), bind_of_eq_some (pow2k_eq hhigh 2)]
  exact mul_eq ha (bounded_pow2k hhigh 2)

end Powers

/-! ## The canonical form -/

section Canonical

variable {a b : Limbs}

/-- One step of a ripple carry; the carry itself is below `2 ^ 13`. -/
theorem ripple_eq {v : UInt64} (hv : v.toNat < 2 ^ 53) (w : UInt64) :
    add? v (w >>> 51) = some (v + w >>> 51) := by
  have hw := w.toNat_lt
  apply add?_eq
  rw [toNat_shiftRight]
  omega

theorem excess_eq (ha : a.Bounded) : excess a = some a.excess := by
  obtain ⟨h0, h1, h2, h3, h4⟩ := ha
  have hconst : (19 : UInt64).toNat = 19 := rfl
  have hfirst : a.l0.toNat + (19 : UInt64).toNat < 2 ^ 64 := by
    rw [hconst]
    omega
  have hwide {n : Nat} (h : n < 2 ^ 52) : n < 2 ^ 53 := by omega
  rw [excess, bind_of_eq_some (add?_eq hfirst), bind_of_eq_some (ripple_eq (hwide h1) _),
    bind_of_eq_some (ripple_eq (hwide h2) _), bind_of_eq_some (ripple_eq (hwide h3) _),
    bind_of_eq_some (ripple_eq (hwide h4) _)]
  rfl

theorem settle_eq (h1 : a.l1.toNat < 2 ^ 53) (h2 : a.l2.toNat < 2 ^ 53)
    (h3 : a.l3.toNat < 2 ^ 53) (h4 : a.l4.toNat < 2 ^ 53) : settle a = some a.settle := by
  rw [settle, bind_of_eq_some (ripple_eq h1 _), bind_of_eq_some (ripple_eq h2 _),
    bind_of_eq_some (ripple_eq h3 _), bind_of_eq_some (ripple_eq h4 _)]
  rfl

theorem canonical_eq (a : Limbs) : canonical a = some a.canonical := by
  have hbounded := a.bounded_carry
  have hone := a.toNat_excess_carry
  have hconst : (19 : UInt64).toNat = 19 := rfl
  have hreturn : (19 : UInt64).toNat * a.carry.excess.toNat < 2 ^ 64 := by
    rw [hconst]
    omega
  obtain ⟨h0, h1, h2, h3, h4⟩ := hbounded
  have hlow : a.carry.l0.toNat + (19 * a.carry.excess).toNat < 2 ^ 64 := by
    rw [toNat_mul hreturn, hconst]
    omega
  have hwide {n : Nat} (h : n < 2 ^ 52) : n < 2 ^ 53 := by omega
  rw [canonical, bind_of_eq_some (carry_eq a), bind_of_eq_some (excess_eq a.bounded_carry),
    bind_of_eq_some (mul?_eq hreturn), bind_of_eq_some (add?_eq hlow)]
  exact settle_eq (hwide h1) (hwide h2) (hwide h3) (hwide h4)

/-! ## Bytes -/

/-- The number whose digits in base `2 ^ 51` are the given limbs. -/
def ofDigits : List UInt64 → Nat
  | [] => 0
  | limb :: rest => limb.toNat + 2 ^ 51 * ofDigits rest

theorem or_shiftLeft_eq {pending bits : Nat} (limb : Nat) (hpending : pending < 2 ^ bits) :
    limb <<< bits ||| pending = 2 ^ bits * limb + pending := by
  rw [← Nat.shiftLeft_add_eq_or_of_lt hpending, Nat.shiftLeft_eq, Nat.mul_comm]

theorem add_digit_lt {pending bits limb : Nat} (hpending : pending < 2 ^ bits)
    (hlimb : limb < 2 ^ 51) : 2 ^ bits * limb + pending < 2 ^ (bits + 51) := by
  calc 2 ^ bits * limb + pending < 2 ^ bits * limb + 2 ^ bits := Nat.add_lt_add_left hpending _
    _ = 2 ^ bits * (limb + 1) := (Nat.mul_succ _ _).symm
    _ ≤ 2 ^ bits * 2 ^ 51 := Nat.mul_le_mul_left _ hlimb
    _ = 2 ^ (bits + 51) := (Nat.pow_add 2 bits 51).symm

theorem pack_eq {limbs : List UInt64} (hlimbs : ∀ limb ∈ limbs, limb.toNat < 2 ^ 51)
    {pending bits : Nat} (hpending : pending < 2 ^ bits) (hbits : bits < 8) :
    pack limbs pending bits
      = some (LittleEndian.encode ((bits + 51 * limbs.length) / 8 + 1)
          (pending + 2 ^ bits * ofDigits limbs)) := by
  induction limbs generalizing pending bits with
  | nil =>
      have hbyte : pending < 256 :=
        hpending.trans_le (Nat.pow_le_pow_right (by decide) (by omega : bits ≤ 8))
      have hcount : (bits + 51 * 0) / 8 + 1 = 1 := by omega
      rw [pack, if_pos hbyte, List.length_nil, hcount, ofDigits, Nat.mul_zero, Nat.add_zero]
      rfl
  | cons limb rest ih =>
      obtain ⟨hlimb, hrest⟩ := List.forall_mem_cons.mp hlimbs
      obtain ⟨filled, hfilled⟩ : ∃ filled, filled = 2 ^ bits * limb.toNat + pending := ⟨_, rfl⟩
      have hlt : filled < 2 ^ (bits + 51) := hfilled ▸ add_digit_lt hpending hlimb
      have hfits : Wide.ofNat? filled = some filled :=
        if_pos (hlt.trans_le (Nat.pow_le_pow_right (by decide) (by omega)))
      obtain ⟨count, hcount⟩ : ∃ count, count = (bits + 51) / 8 := ⟨_, rfl⟩
      obtain ⟨left, hleft⟩ : ∃ left, left = (bits + 51) % 8 := ⟨_, rfl⟩
      have hsplit : 2 ^ (bits + 51) = 256 ^ count * 2 ^ left := by
        have hexponent : bits + 51 = 8 * count + left := by omega
        rw [hexponent, Nat.pow_add, Nat.pow_mul]
      have hpositive : 0 < 256 ^ count := Nat.pow_pos (by decide)
      have hquotient : filled / 256 ^ count < 2 ^ left := by
        rw [Nat.div_lt_iff_lt_mul hpositive, Nat.mul_comm, ← hsplit]
        exact hlt
      have hnumber : pending + 2 ^ bits * ofDigits (limb :: rest)
          = filled + 256 ^ count * (2 ^ left * ofDigits rest) := by
        rw [ofDigits, ← Nat.mul_assoc, ← hsplit, hfilled, Nat.pow_add]
        ring
      have hlength : (bits + 51 * (limb :: rest).length) / 8 + 1
          = count + ((left + 51 * rest.length) / 8 + 1) := by
        rw [List.length_cons]
        omega
      rw [pack, or_shiftLeft_eq _ hpending, ← hfilled, bind_of_eq_some hfits]
      dsimp only
      rw [← hcount, ← hleft, bind_of_eq_some (ih hrest hquotient (by omega)), hnumber, hlength,
        LittleEndian.encode_append count, LittleEndian.encode_add_mul,
        Nat.add_mul_div_left _ _ hpositive]
      rfl

theorem toBytes_eq (a : Limbs) : toBytes a = some a.toBlock.bytes := by
  obtain ⟨h0, h1, h2, h3, h4⟩ := settled_canonical a
  have hlimbs : ∀ limb ∈ [a.canonical.l0, a.canonical.l1, a.canonical.l2, a.canonical.l3,
      a.canonical.l4], limb.toNat < 2 ^ 51 := by
    simp only [List.forall_mem_cons]
    exact ⟨h0, h1, h2, h3, h4, List.forall_mem_nil _⟩
  have hpack := @pack_eq _ hlimbs 0 0 (by decide) (by decide)
  have hvalue : 0 + 2 ^ 0 * ofDigits
      [a.canonical.l0, a.canonical.l1, a.canonical.l2, a.canonical.l3, a.canonical.l4]
      = a.canonical.value := by
    simp only [ofDigits, value]
    omega
  have hlength : (0 + 51 * 5) / 8 + 1 = 32 := by decide
  rw [toBytes, bind_of_eq_some (canonical_eq a), hpack, hvalue]
  simp only [List.length_cons, List.length_nil, hlength]
  rfl

theorem toNat_toBlock (a : Limbs) : a.toBlock.toNat = a.residue.val := by
  have hlt := Residue.val_lt_two_pow a.residue
  rw [toBlock, Block.toNat, Block.ofNat, LittleEndian.decode_encode, value_canonical,
    Nat.mod_eq_of_lt (by omega)]

theorem foldl_or_xor_eq_zero {a b : Bytes} (h : a.length = b.length) {difference : UInt8} :
    (Bytes.xor a b).foldl (· ||| ·) difference = 0 ↔ difference = 0 ∧ a = b := by
  induction a generalizing b difference with
  | nil =>
      cases List.length_eq_zero_iff.mp h.symm
      simp [Bytes.xor]
  | cons x a ih =>
      cases b with
      | nil => cases h
      | cons y b =>
          have htail := @ih b (Nat.succ.inj h) (difference ||| x ^^^ y)
          rw [Bytes.xor, List.zipWith_cons_cons, List.foldl_cons, ← Bytes.xor, htail,
            UInt8.or_eq_zero_iff, UInt8.xor_eq_zero_iff, List.cons.injEq, and_assoc]

theorem sameBytes_eq (a b : Bytes) : sameBytes a b = (a == b) := by
  rw [Bool.eq_iff_iff, sameBytes, Bool.and_eq_true, beq_iff_eq, beq_iff_eq, beq_iff_eq]
  constructor
  · rintro ⟨hlength, hdifference⟩
    exact ((foldl_or_xor_eq_zero hlength).mp hdifference).2
  · rintro rfl
    exact ⟨rfl, (foldl_or_xor_eq_zero rfl).mpr ⟨rfl, rfl⟩⟩

theorem same_eq (a b : Limbs) : same a b = some (a.same b) := by
  have hbytes : sameBytes a.toBlock.bytes b.toBlock.bytes = a.same b := by
    rw [sameBytes_eq, Bool.eq_iff_iff, beq_iff_eq, same_eq_true]
    constructor
    · intro h
      apply ZMod.val_injective prime
      rw [← toNat_toBlock, ← toNat_toBlock, Block.toNat, h]
      rfl
    · intro h
      rw [toBlock, toBlock, value_canonical, value_canonical, h]
  rw [same, bind_of_eq_some (toBytes_eq a), bind_of_eq_some (toBytes_eq b), hbytes]
  rfl

theorem isNegative_eq (a : Limbs) : isNegative a = some a.isNegative := by
  have hhead : a.toBlock.bytes.headD 0 = a.canonical.value.toUInt8 := rfl
  have hparity : (a.canonical.value.toUInt8 &&& 1).toNat = a.residue.val % 2 := by
    rw [UInt8.toNat_and, show (1 : UInt8).toNat = 1 from rfl, Nat.and_one_is_mod,
      Nat.toUInt8, UInt8.toNat_ofNat', value_canonical]
    omega
  have hbit : (a.toBlock.bytes.headD 0 &&& 1 == 1) = a.isNegative := by
    rw [Limbs.isNegative_eq, hhead, Bool.eq_iff_iff, beq_iff_eq, decide_eq_true_iff,
      ← UInt8.toNat_inj, hparity]
    rfl
  rw [isNegative, bind_of_eq_some (toBytes_eq a), hbit]
  rfl

theorem sqrtRatio_eq (ha : a.Bounded) (hb : b.Bounded) :
    sqrtRatio a b = some (a.sqrtRatio b) := by
  have h2 := bounded_square hb
  have h3 := bounded_mul h2 hb
  have h6 := bounded_square h3
  have h7 := bounded_mul h6 hb
  have hscaled := bounded_mul ha h3
  have hargument := bounded_mul ha h7
  have hpower := (Represents.powRoot ⟨hargument, rfl⟩).bounded
  have hroot := bounded_mul hscaled hpower
  have hopposite := bounded_neg a
  have hturn := bounded_mul bounded_sqrtMinusOne hroot
  have hturned (choice : Bool) := (Represents.select ⟨hroot, rfl⟩ ⟨hturn, rfl⟩ choice).bounded
  rw [sqrtRatio, bind_of_eq_some (square_eq hb), bind_of_eq_some (mul_eq h2 hb),
    bind_of_eq_some (square_eq h3), bind_of_eq_some (mul_eq h6 hb),
    bind_of_eq_some (mul_eq ha h3), bind_of_eq_some (mul_eq ha h7),
    bind_of_eq_some (powRoot_eq hargument), bind_of_eq_some (mul_eq hscaled hpower),
    bind_of_eq_some (square_eq hroot), bind_of_eq_some (mul_eq hb (bounded_square hroot)),
    bind_of_eq_some (neg_eq ha), bind_of_eq_some (same_eq _ _), bind_of_eq_some (same_eq _ _),
    bind_of_eq_some (mul_eq hopposite bounded_sqrtMinusOne), bind_of_eq_some (same_eq _ _),
    bind_of_eq_some (mul_eq bounded_sqrtMinusOne hroot)]
  simp only [select_eq]
  rw [bind_of_eq_some (neg_eq (hturned _)), bind_of_eq_some (isNegative_eq _)]
  rfl

end Canonical

end Limbs.Checked

end LedgerTx.Curve
