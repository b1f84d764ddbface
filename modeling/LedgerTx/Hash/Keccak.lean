import LedgerTx.Bytes

/-!
# Keccak and SHA-3

The state is five planes of five 64-bit lanes.  A round is `theta`, then the
lane rotations and moves, then `chi`, then one round constant.  The sponge
pads a message, absorbs it block by block and reads the digest off the first
lanes; the three digests differ in rate, padding byte and digest length.
-/

namespace LedgerTx.Hash

/-! ## The permutation -/

def rotateLane (lane amount : UInt64) : UInt64 :=
  lane <<< amount ||| lane >>> (64 - amount)

structure Plane where
  l0 : UInt64
  l1 : UInt64
  l2 : UInt64
  l3 : UInt64
  l4 : UInt64
deriving DecidableEq

namespace Plane

def zero : Plane := ⟨0, 0, 0, 0, 0⟩

def xor (p q : Plane) : Plane :=
  ⟨p.l0 ^^^ q.l0, p.l1 ^^^ q.l1, p.l2 ^^^ q.l2, p.l3 ^^^ q.l3, p.l4 ^^^ q.l4⟩

/-- Each lane receives its left neighbour and its rotated right neighbour. -/
def spread (p : Plane) : Plane :=
  ⟨p.l4 ^^^ rotateLane p.l1 1, p.l0 ^^^ rotateLane p.l2 1, p.l1 ^^^ rotateLane p.l3 1,
    p.l2 ^^^ rotateLane p.l4 1, p.l3 ^^^ rotateLane p.l0 1⟩

/-- The nonlinear step: a lane flips where the next is clear and the one after is set. -/
def chi (p : Plane) : Plane :=
  ⟨p.l0 ^^^ (~~~p.l1 &&& p.l2), p.l1 ^^^ (~~~p.l2 &&& p.l3), p.l2 ^^^ (~~~p.l3 &&& p.l4),
    p.l3 ^^^ (~~~p.l4 &&& p.l0), p.l4 ^^^ (~~~p.l0 &&& p.l1)⟩

/-- The plane read from lanes `5 * row` onwards, missing lanes being zero. -/
def ofLanes (lanes : List UInt64) (row : Nat) : Plane :=
  ⟨lanes.getD (5 * row) 0, lanes.getD (5 * row + 1) 0, lanes.getD (5 * row + 2) 0,
    lanes.getD (5 * row + 3) 0, lanes.getD (5 * row + 4) 0⟩

end Plane

structure KeccakState where
  p0 : Plane
  p1 : Plane
  p2 : Plane
  p3 : Plane
  p4 : Plane
deriving DecidableEq

namespace KeccakState

def zero : KeccakState := ⟨.zero, .zero, .zero, .zero, .zero⟩

def theta (s : KeccakState) : KeccakState :=
  let d := ((((s.p0.xor s.p1).xor s.p2).xor s.p3).xor s.p4).spread
  ⟨s.p0.xor d, s.p1.xor d, s.p2.xor d, s.p3.xor d, s.p4.xor d⟩

def rhoPi (s : KeccakState) : KeccakState where
  p0 := ⟨s.p0.l0, rotateLane s.p1.l1 44, rotateLane s.p2.l2 43, rotateLane s.p3.l3 21,
    rotateLane s.p4.l4 14⟩
  p1 := ⟨rotateLane s.p0.l3 28, rotateLane s.p1.l4 20, rotateLane s.p2.l0 3,
    rotateLane s.p3.l1 45, rotateLane s.p4.l2 61⟩
  p2 := ⟨rotateLane s.p0.l1 1, rotateLane s.p1.l2 6, rotateLane s.p2.l3 25,
    rotateLane s.p3.l4 8, rotateLane s.p4.l0 18⟩
  p3 := ⟨rotateLane s.p0.l4 27, rotateLane s.p1.l0 36, rotateLane s.p2.l1 10,
    rotateLane s.p3.l2 15, rotateLane s.p4.l3 56⟩
  p4 := ⟨rotateLane s.p0.l2 62, rotateLane s.p1.l3 55, rotateLane s.p2.l4 39,
    rotateLane s.p3.l0 41, rotateLane s.p4.l1 2⟩

def chi (s : KeccakState) : KeccakState :=
  ⟨s.p0.chi, s.p1.chi, s.p2.chi, s.p3.chi, s.p4.chi⟩

def iota (constant : UInt64) (s : KeccakState) : KeccakState :=
  { s with p0 := { s.p0 with l0 := s.p0.l0 ^^^ constant } }

def round (s : KeccakState) (constant : UInt64) : KeccakState :=
  s.theta.rhoPi.chi.iota constant

def roundConstants : List UInt64 :=
  [0x0000000000000001, 0x0000000000008082, 0x800000000000808a, 0x8000000080008000,
    0x000000000000808b, 0x0000000080000001, 0x8000000080008081, 0x8000000000008009,
    0x000000000000008a, 0x0000000000000088, 0x0000000080008009, 0x000000008000000a,
    0x000000008000808b, 0x800000000000008b, 0x8000000000008089, 0x8000000000008003,
    0x8000000000008002, 0x8000000000000080, 0x000000000000800a, 0x800000008000000a,
    0x8000000080008081, 0x8000000000008080, 0x0000000080000001, 0x8000000080008008]

def permute (s : KeccakState) : KeccakState :=
  roundConstants.foldl round s

/-- A block is added to the front lanes and the state is permuted. -/
def absorb (s : KeccakState) (block : Bytes) : KeccakState :=
  let lanes := (Bytes.chunks 8 block).map fun lane => (LittleEndian.decode lane).toUInt64
  permute ⟨s.p0.xor (.ofLanes lanes 0), s.p1.xor (.ofLanes lanes 1),
    s.p2.xor (.ofLanes lanes 2), s.p3.xor (.ofLanes lanes 3), s.p4.xor (.ofLanes lanes 4)⟩

def laneBytes (lane : UInt64) : Block 8 :=
  Block.ofNat lane.toNat

def front32 (s : KeccakState) : Block 32 :=
  ((laneBytes s.p0.l0).append (laneBytes s.p0.l1)).append
    ((laneBytes s.p0.l2).append (laneBytes s.p0.l3))

def front64 (s : KeccakState) : Block 64 :=
  s.front32.append
    (((laneBytes s.p0.l4).append (laneBytes s.p1.l0)).append
      ((laneBytes s.p1.l1).append (laneBytes s.p1.l2)))

end KeccakState

/-! ## The sponge -/

/--
Fills the last block: the padding byte follows the message and the last bit
of the block is set.  When one byte is free it holds both.
-/
def spongePad (rate : Nat) (padding : UInt8) (message : Bytes) : Bytes :=
  let free := rate - message.length % rate
  if free = 1 then message ++ [padding ||| 0x80]
  else message ++ padding :: (List.replicate (free - 2) 0 ++ [0x80])

def sponge (rate : Nat) (padding : UInt8) (message : Bytes) : KeccakState :=
  (Bytes.chunks rate (spongePad rate padding message)).foldl .absorb .zero

/-- SHA3-256: rate 136, padding byte 6. -/
def sha3_256 (message : Bytes) : Block 32 :=
  (sponge 136 0x06 message).front32

/-- SHA3-512: rate 72, padding byte 6. -/
def sha3_512 (message : Bytes) : Block 64 :=
  (sponge 72 0x06 message).front64

/-- Keccak-256: rate 136, padding byte 1. -/
def keccak256 (message : Bytes) : Block 32 :=
  (sponge 136 0x01 message).front32

end LedgerTx.Hash
