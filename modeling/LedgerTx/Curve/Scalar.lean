import LedgerTx.Bytes

/-! # Scalars -/

namespace LedgerTx.Curve.Scalar

-- Powers are taken with the core operation.
attribute [local instance (high)] instPowNat instNatPowNat

def order : Nat := 2 ^ (252 : Nat) + 27742317777372353535851937790883648493

def ofBytes (bytes : Bytes) : Nat :=
  LittleEndian.decode bytes % order

/-- The scalar written by 32 bytes, when these are already reduced. -/
def ofCanonical? (block : Block 32) : Option Nat :=
  if block.toNat < order then some block.toNat else none

def addMul (r k a : Nat) : Nat :=
  (r + k * a) % order

end LedgerTx.Curve.Scalar
