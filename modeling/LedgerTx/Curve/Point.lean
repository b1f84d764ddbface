import LedgerTx.Curve.Limbs
import LedgerTx.Text.Hex

/-!
# Points of the twisted Edwards curve

A point of `-x ^ 2 + y ^ 2 = 1 + d x ^ 2 y ^ 2` is held in extended
coordinates `X : Y : Z : T` with `x = X / Z`, `y = Y / Z` and `X Y = Z T`.
The addition formula is complete, so no operand is a special case.  A point
is written as its `y`, with the parity of `x` in the highest bit.
-/

namespace LedgerTx.Curve

-- Powers are taken with the core operation.
attribute [local instance (high)] instPowNat instNatPowNat

structure Point where
  x : Limbs
  y : Limbs
  z : Limbs
  t : Limbs
deriving DecidableEq

namespace Point

def identity : Point := ⟨.zero, .one, .one, .zero⟩

/-- The base point: `y` is `4 / 5` and `x` is even. -/
def base : Point where
  x := ⟨1738742601995546, 1146398526822698, 2070867633025821, 562264141797630, 587772402128613⟩
  y := ⟨1801439850948184, 1351079888211148, 450359962737049, 900719925474099, 1801439850948198⟩
  z := .one
  t := ⟨1841354044333475, 16398895984059, 755974180946558, 900171276175154, 1821297809914039⟩

/-! ## Group operations -/

def add (p q : Point) : Point :=
  let a := (p.y - p.x) * (q.y - q.x)
  let b := (p.y + p.x) * (q.y + q.x)
  let c := p.t * .edwardsD2 * q.t
  let zz := p.z * q.z
  let d := zz + zz
  let e := b - a
  let f := d - c
  let g := d + c
  let h := b + a
  ⟨e * f, g * h, f * g, e * h⟩

def double (p : Point) : Point :=
  let a := p.x.square
  let b := p.y.square
  let zz := p.z.square
  let c := zz + zz
  let d := -a
  let e := (p.x + p.y).square - a - b
  let g := d + b
  let f := g - c
  let h := d - b
  ⟨e * f, g * h, f * g, e * h⟩

def neg (p : Point) : Point :=
  ⟨-p.x, p.y, p.z, -p.t⟩

def sub (p q : Point) : Point :=
  p.add q.neg

/-- The multiple of a point by the leading `count` of the 256 bits of a number. -/
def mulLeading (p : Point) (n : Nat) : (count : Nat) → Point
  | 0 => identity
  | count + 1 =>
      let doubled := (mulLeading p n count).double
      if n.testBit (255 - count) then doubled.add p else doubled

/-- The multiple of a point by a number below `2 ^ 256`, which is not reduced. -/
def mul (p : Point) (n : Nat) : Point :=
  p.mulLeading n 256

def mulBase (n : Nat) : Point :=
  base.mul n

def mulCofactor (p : Point) : Point :=
  p.double.double.double

/-! ## Tests -/

def same (p q : Point) : Bool :=
  (p.x * q.z).same (q.x * p.z) && (p.y * q.z).same (q.y * p.z)

def isSmallOrder (p : Point) : Bool :=
  p.mulCofactor.same identity

/-- Whether the coordinates satisfy the curve equation and `X Y = Z T`. -/
def isOnCurve (p : Point) : Bool :=
  let xx := p.x.square
  let yy := p.y.square
  let zz := p.z.square
  let tt := p.t.square
  ((yy - xx) * zz).same (zz.square + .edwardsD * tt * zz) && (p.x * p.y).same (p.t * p.z)

/-! ## Compressed form -/

/-- The reduced `y` with the parity of `x` in bit 255. -/
def encode (p : Point) : Block 32 :=
  let inverse := p.z.invert
  let x := p.x * inverse
  let y := p.y * inverse
  Block.ofNat (y.canonical.value + if x.isNegative then 2 ^ (255 : Nat) else 0)

/--
Reads a compressed point.  Refused are a `y` that is not reduced, a `y`
without an `x` on the curve, and an odd `x` where only zero fits.
-/
def decode? (block : Block 32) : Option Point :=
  let odd := block.toNat.testBit 255
  let n := block.toNat % 2 ^ (255 : Nat)
  if prime ≤ n then none
  else
    let y := Limbs.ofNat n
    let yy := y.square
    match Limbs.sqrtRatio (yy - .one) (yy * .edwardsD + .one) with
    | (false, _) => none
    | (true, root) =>
        if root.isZero && odd then none
        else
          let x := Limbs.select root (-root) odd
          some ⟨x, y, .one, x * y⟩

def describe (p : Point) : String :=
  s!"GroupElement({Hex.encodeLower p.encode.bytes})"

end Point

end LedgerTx.Curve
