import LedgerTx.Bytes

/-!
# The field of 2 ^ 255 - 19 in five limbs

A field element is five words of 51 bits, least significant first.  Sums are
carried once, products are collected in unbounded columns and folded back by
`2 ^ 255 = 19`.  Every operation returns limbs below `2 ^ 52`; the canonical
form is the only one with limbs below `2 ^ 51` and a value below the prime.
-/

namespace LedgerTx.Curve

-- Powers are taken with the core operation.
attribute [local instance (high)] instPowNat instNatPowNat

def prime : Nat := 2 ^ (255 : Nat) - 19

/-- Five limbs of 51 bits, least significant first. -/
structure Limbs where
  l0 : UInt64
  l1 : UInt64
  l2 : UInt64
  l3 : UInt64
  l4 : UInt64
deriving DecidableEq

namespace Limbs

/-! ## Values -/

def value (a : Limbs) : Nat :=
  a.l0.toNat + 2 ^ (51 : Nat) * a.l1.toNat + 2 ^ (102 : Nat) * a.l2.toNat
    + 2 ^ (153 : Nat) * a.l3.toNat + 2 ^ (204 : Nat) * a.l4.toNat

def ofNat (n : Nat) : Limbs :=
  ⟨(n % 2 ^ (51 : Nat)).toUInt64,
    (n / 2 ^ (51 : Nat) % 2 ^ (51 : Nat)).toUInt64,
    (n / 2 ^ (102 : Nat) % 2 ^ (51 : Nat)).toUInt64,
    (n / 2 ^ (153 : Nat) % 2 ^ (51 : Nat)).toUInt64,
    (n / 2 ^ (204 : Nat) % 2 ^ (51 : Nat)).toUInt64⟩

/-- The limbs of a 32-byte number; its highest bit is ignored. -/
def ofBlock (block : Block 32) : Limbs :=
  ofNat block.toNat

def zero : Limbs := ⟨0, 0, 0, 0, 0⟩

def one : Limbs := ⟨1, 0, 0, 0, 0⟩

/-- The curve constant `-121665 / 121666`. -/
def edwardsD : Limbs :=
  ⟨929955233495203, 466365720129213, 1662059464998953, 2033849074728123, 1442794654840575⟩

def edwardsD2 : Limbs :=
  ⟨1859910466990425, 932731440258426, 1072319116312658, 1815898335770999, 633789495995903⟩

def sqrtMinusOne : Limbs :=
  ⟨1718705420411056, 234908883556509, 2233514472574048, 2117202627021982, 765476049583133⟩

/-! ## Carries -/

def mask : UInt64 := 0x7ffffffffffff

/-- All five carries at once; the top one returns to the lowest limb times 19. -/
def carry (a : Limbs) : Limbs :=
  ⟨(a.l0 &&& mask) + (a.l4 >>> 51) * 19, (a.l1 &&& mask) + a.l0 >>> 51,
    (a.l2 &&& mask) + a.l1 >>> 51, (a.l3 &&& mask) + a.l2 >>> 51,
    (a.l4 &&& mask) + a.l3 >>> 51⟩

/-- One when a carried element has a value of at least the prime, else zero. -/
def excess (a : Limbs) : UInt64 :=
  (a.l4 + (a.l3 + (a.l2 + (a.l1 + (a.l0 + 19) >>> 51) >>> 51) >>> 51) >>> 51) >>> 51

/-- Carries from the lowest limb upwards and drops what leaves the top limb. -/
def settle (a : Limbs) : Limbs :=
  let r1 := a.l1 + a.l0 >>> 51
  let r2 := a.l2 + r1 >>> 51
  let r3 := a.l3 + r2 >>> 51
  let r4 := a.l4 + r3 >>> 51
  ⟨a.l0 &&& mask, r1 &&& mask, r2 &&& mask, r3 &&& mask, r4 &&& mask⟩

/--
The limbs of the value reduced below the prime.  Adding 19 to a value of at
least the prime carries it past `2 ^ 255`, which settling drops.
-/
def canonical (a : Limbs) : Limbs :=
  let c := a.carry
  { c with l0 := c.l0 + 19 * c.excess }.settle

def toBlock (a : Limbs) : Block 32 :=
  Block.ofNat a.canonical.value

def same (a b : Limbs) : Bool :=
  a.canonical == b.canonical

def isZero (a : Limbs) : Bool :=
  a.same zero

/-- Whether the reduced value is odd. -/
def isNegative (a : Limbs) : Bool :=
  a.canonical.l0 &&& 1 == 1

/-! ## Ring operations -/

def add (a b : Limbs) : Limbs :=
  carry ⟨a.l0 + b.l0, a.l1 + b.l1, a.l2 + b.l2, a.l3 + b.l3, a.l4 + b.l4⟩

/-- Difference; sixteen times the prime is added first so that no limb underflows. -/
def sub (a b : Limbs) : Limbs :=
  carry ⟨a.l0 + 36028797018963664 - b.l0, a.l1 + 36028797018963952 - b.l1,
    a.l2 + 36028797018963952 - b.l2, a.l3 + 36028797018963952 - b.l3,
    a.l4 + 36028797018963952 - b.l4⟩

def neg (a : Limbs) : Limbs :=
  sub zero a

def wide (x y : UInt64) : Nat :=
  x.toNat * y.toNat

/--
Product.  Column `k` collects the limb products of weight `k`, those of
weight `k + 5` entering times 19; the columns are carried upwards once and
the last carry returns to the lowest limb times 19.
-/
def mul (a b : Limbs) : Limbs :=
  let b1 := b.l1 * 19
  let b2 := b.l2 * 19
  let b3 := b.l3 * 19
  let b4 := b.l4 * 19
  let c0 := wide a.l0 b.l0 + wide a.l4 b1 + wide a.l3 b2 + wide a.l2 b3 + wide a.l1 b4
  let c1 := wide a.l1 b.l0 + wide a.l0 b.l1 + wide a.l4 b2 + wide a.l3 b3 + wide a.l2 b4
    + c0 >>> 51
  let c2 := wide a.l2 b.l0 + wide a.l1 b.l1 + wide a.l0 b.l2 + wide a.l4 b3 + wide a.l3 b4
    + c1 >>> 51
  let c3 := wide a.l3 b.l0 + wide a.l2 b.l1 + wide a.l1 b.l2 + wide a.l0 b.l3 + wide a.l4 b4
    + c2 >>> 51
  let c4 := wide a.l4 b.l0 + wide a.l3 b.l1 + wide a.l2 b.l2 + wide a.l1 b.l3 + wide a.l0 b.l4
    + c3 >>> 51
  let r0 := (c0.toUInt64 &&& mask) + (c4 >>> 51).toUInt64 * 19
  ⟨r0 &&& mask, (c1.toUInt64 &&& mask) + r0 >>> 51, c2.toUInt64 &&& mask,
    c3.toUInt64 &&& mask, c4.toUInt64 &&& mask⟩

instance : Add Limbs := ⟨add⟩
instance : Sub Limbs := ⟨sub⟩
instance : Neg Limbs := ⟨neg⟩
instance : Mul Limbs := ⟨mul⟩

def select (a b : Limbs) (choice : Bool) : Limbs :=
  if choice then b else a

/-! ## Powers -/

def square (a : Limbs) : Limbs :=
  a * a

def squarings (a : Limbs) : Nat → Limbs
  | 0 => a
  | k + 1 => (squarings a k).square

/-- The power `2 ^ k`, for a positive exponent `k`; zero counts as one. -/
def pow2k (a : Limbs) (k : Nat) : Limbs :=
  squarings a (max k 1)

/-- The powers `2 ^ 250 - 1` and `11`, which both exponent chains start from. -/
def powChain (a : Limbs) : Limbs × Limbs :=
  let t0 := a.square
  let t2 := a * t0.pow2k 2
  let t3 := t0 * t2
  let t5 := t2 * t3.square
  let t7 := t5.pow2k 5 * t5
  let t9 := t7.pow2k 10 * t7
  let t11 := t9.pow2k 20 * t9
  let t13 := t11.pow2k 10 * t7
  let t15 := t13.pow2k 50 * t13
  let t17 := t15.pow2k 100 * t15
  (t17.pow2k 50 * t13, t3)

def invert (a : Limbs) : Limbs :=
  let (high, low) := a.powChain
  high.pow2k 5 * low

/-- The power `(p - 5) / 8`. -/
def powRoot (a : Limbs) : Limbs :=
  a * a.powChain.1.pow2k 2

/--
The square root of `u / v` with an even reduced value.  The flag is true when
the root squares to the quotient; otherwise the root squares to the quotient
times the root of minus one.
-/
def sqrtRatio (u v : Limbs) : Bool × Limbs :=
  let v3 := v.square * v
  let v7 := v3.square * v
  let root := u * v3 * (u * v7).powRoot
  let check := v * root.square
  let direct := check.same u
  let flipped := check.same (-u)
  let twisted := check.same (-u * sqrtMinusOne)
  let turned := select root (sqrtMinusOne * root) (flipped || twisted)
  (direct || flipped, select turned (-turned) turned.isNegative)

def sqrt? (a : Limbs) : Option Limbs :=
  match sqrtRatio a one with
  | (true, root) => some root
  | (false, _) => none

end Limbs

end LedgerTx.Curve
