import LedgerTx.Hash.Sha256

/-!
# RIPEMD-160

Two lines of eighty steps run over the same block with different word
orders, rotations and constants; their results are added crosswise to the
chaining words.  Words and the bit length are little-endian.
-/

namespace LedgerTx.Hash

def rotateLeft32 (word amount : UInt32) : UInt32 :=
  word <<< amount ||| word >>> (32 - amount)

structure RipemdState where
  a : UInt32
  b : UInt32
  c : UInt32
  d : UInt32
  e : UInt32
deriving DecidableEq

/-- One group of sixteen steps: its Boolean function and added constant. -/
structure RipemdRound where
  mix : UInt32 → UInt32 → UInt32 → UInt32
  constant : UInt32
  words : List Nat
  rotations : List UInt32

namespace RipemdRound

def parity (x y z : UInt32) : UInt32 := x ^^^ y ^^^ z

def choose (x y z : UInt32) : UInt32 := (x &&& y) ||| (~~~x &&& z)

def orNot (x y z : UInt32) : UInt32 := (x ||| ~~~y) ^^^ z

def chooseLast (x y z : UInt32) : UInt32 := (x &&& z) ||| (y &&& ~~~z)

def notOr (x y z : UInt32) : UInt32 := x ^^^ (y ||| ~~~z)

def left : List RipemdRound :=
  [⟨parity, 0x00000000, [0, 1, 2, 3, 4, 5, 6, 7, 8, 9, 10, 11, 12, 13, 14, 15],
      [11, 14, 15, 12, 5, 8, 7, 9, 11, 13, 14, 15, 6, 7, 9, 8]⟩,
    ⟨choose, 0x5a827999, [7, 4, 13, 1, 10, 6, 15, 3, 12, 0, 9, 5, 2, 14, 11, 8],
      [7, 6, 8, 13, 11, 9, 7, 15, 7, 12, 15, 9, 11, 7, 13, 12]⟩,
    ⟨orNot, 0x6ed9eba1, [3, 10, 14, 4, 9, 15, 8, 1, 2, 7, 0, 6, 13, 11, 5, 12],
      [11, 13, 6, 7, 14, 9, 13, 15, 14, 8, 13, 6, 5, 12, 7, 5]⟩,
    ⟨chooseLast, 0x8f1bbcdc, [1, 9, 11, 10, 0, 8, 12, 4, 13, 3, 7, 15, 14, 5, 6, 2],
      [11, 12, 14, 15, 14, 15, 9, 8, 9, 14, 5, 6, 8, 6, 5, 12]⟩,
    ⟨notOr, 0xa953fd4e, [4, 0, 5, 9, 7, 12, 2, 10, 14, 1, 3, 8, 11, 6, 15, 13],
      [9, 15, 5, 11, 6, 8, 13, 12, 5, 12, 13, 14, 11, 8, 5, 6]⟩]

def right : List RipemdRound :=
  [⟨notOr, 0x50a28be6, [5, 14, 7, 0, 9, 2, 11, 4, 13, 6, 15, 8, 1, 10, 3, 12],
      [8, 9, 9, 11, 13, 15, 15, 5, 7, 7, 8, 11, 14, 14, 12, 6]⟩,
    ⟨chooseLast, 0x5c4dd124, [6, 11, 3, 7, 0, 13, 5, 10, 14, 15, 8, 12, 4, 9, 1, 2],
      [9, 13, 15, 7, 12, 8, 9, 11, 7, 7, 12, 7, 6, 15, 13, 11]⟩,
    ⟨orNot, 0x6d703ef3, [15, 5, 1, 3, 7, 14, 6, 9, 11, 8, 12, 2, 10, 0, 4, 13],
      [9, 7, 15, 11, 8, 6, 6, 14, 12, 13, 5, 14, 13, 13, 7, 5]⟩,
    ⟨choose, 0x7a6d76e9, [8, 6, 4, 1, 3, 11, 15, 0, 5, 12, 2, 13, 9, 7, 10, 14],
      [15, 5, 8, 11, 14, 14, 6, 14, 6, 9, 12, 9, 12, 5, 15, 8]⟩,
    ⟨parity, 0x00000000, [12, 15, 10, 4, 1, 5, 8, 7, 6, 2, 13, 14, 0, 3, 9, 11],
      [8, 5, 12, 9, 12, 5, 14, 6, 8, 13, 6, 5, 15, 13, 11, 11]⟩]

def step (round : RipemdRound) (words : List UInt32) (s : RipemdState)
    (input : Nat × UInt32) : RipemdState :=
  let sum := s.a + round.mix s.b s.c s.d + words.getD input.1 0 + round.constant
  ⟨s.e, rotateLeft32 sum input.2 + s.e, s.b, rotateLeft32 s.c 10, s.d⟩

def run (words : List UInt32) (s : RipemdState) (round : RipemdRound) : RipemdState :=
  (round.words.zip round.rotations).foldl (round.step words) s

end RipemdRound

namespace RipemdState

def initial : RipemdState :=
  ⟨0x67452301, 0xefcdab89, 0x98badcfe, 0x10325476, 0xc3d2e1f0⟩

def compress (s : RipemdState) (block : Bytes) : RipemdState :=
  let words := (Bytes.chunks 4 block).map fun word => (LittleEndian.decode word).toUInt32
  let l := RipemdRound.left.foldl (RipemdRound.run words) s
  let r := RipemdRound.right.foldl (RipemdRound.run words) s
  ⟨s.b + l.c + r.d, s.c + l.d + r.e, s.d + l.e + r.a, s.e + l.a + r.b, s.a + l.b + r.c⟩

/-- The bytes of one word, least significant first. -/
def wordBytes (word : UInt32) : Block 4 :=
  Block.ofNat word.toNat

def digest (s : RipemdState) : Block 20 :=
  (((wordBytes s.a).append (wordBytes s.b)).append
    ((wordBytes s.c).append (wordBytes s.d))).append (wordBytes s.e)

end RipemdState

def ripemd160 (message : Bytes) : Block 20 :=
  let blocks := Bytes.chunks 64 (lengthPad (LittleEndian.encode 8) message)
  (blocks.foldl RipemdState.compress .initial).digest

/-- RIPEMD-160 of the SHA-256 digest. -/
def hash160 (message : Bytes) : Block 20 :=
  ripemd160 (sha256 message).bytes

end LedgerTx.Hash
