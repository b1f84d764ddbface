import LedgerTx.Bytes

/-!
# SHA-256

The message is padded to whole blocks of 64 bytes with its bit length at the
end.  Each block is expanded to 64 schedule words and folded into eight
chaining words.
-/

namespace LedgerTx.Hash

def rotateRight32 (word amount : UInt32) : UInt32 :=
  word >>> amount ||| word <<< (32 - amount)

/--
One bit set after the message, zero bytes up to eight short of a whole block,
then the bit length as eight bytes in the given order.
-/
def lengthPad (lengthBytes : Nat → Bytes) (message : Bytes) : Bytes :=
  let zeros := (119 - message.length % 64) % 64
  message ++ 0x80 :: (List.replicate zeros 0 ++ lengthBytes (8 * message.length))

structure Sha256State where
  a : UInt32
  b : UInt32
  c : UInt32
  d : UInt32
  e : UInt32
  f : UInt32
  g : UInt32
  h : UInt32
deriving DecidableEq

namespace Sha256State

def initial : Sha256State :=
  ⟨0x6a09e667, 0xbb67ae85, 0x3c6ef372, 0xa54ff53a, 0x510e527f, 0x9b05688c, 0x1f83d9ab,
    0x5be0cd19⟩

def stepConstants : List UInt32 :=
  [0x428a2f98, 0x71374491, 0xb5c0fbcf, 0xe9b5dba5, 0x3956c25b, 0x59f111f1, 0x923f82a4, 0xab1c5ed5,
    0xd807aa98, 0x12835b01, 0x243185be, 0x550c7dc3, 0x72be5d74, 0x80deb1fe, 0x9bdc06a7, 0xc19bf174,
    0xe49b69c1, 0xefbe4786, 0x0fc19dc6, 0x240ca1cc, 0x2de92c6f, 0x4a7484aa, 0x5cb0a9dc, 0x76f988da,
    0x983e5152, 0xa831c66d, 0xb00327c8, 0xbf597fc7, 0xc6e00bf3, 0xd5a79147, 0x06ca6351, 0x14292967,
    0x27b70a85, 0x2e1b2138, 0x4d2c6dfc, 0x53380d13, 0x650a7354, 0x766a0abb, 0x81c2c92e, 0x92722c85,
    0xa2bfe8a1, 0xa81a664b, 0xc24b8b70, 0xc76c51a3, 0xd192e819, 0xd6990624, 0xf40e3585, 0x106aa070,
    0x19a4c116, 0x1e376c08, 0x2748774c, 0x34b0bcb5, 0x391c0cb3, 0x4ed8aa4a, 0x5b9cca4f, 0x682e6ff3,
    0x748f82ee, 0x78a5636f, 0x84c87814, 0x8cc70208, 0x90befffa, 0xa4506ceb, 0xbef9a3f7, 0xc67178f2]

/-- The next schedule word, from the last sixteen with the newest first. -/
def nextWord (newest : List UInt32) : UInt32 :=
  let w2 := newest.getD 1 0
  let w7 := newest.getD 6 0
  let w15 := newest.getD 14 0
  let w16 := newest.getD 15 0
  let s0 := rotateRight32 w15 7 ^^^ rotateRight32 w15 18 ^^^ w15 >>> 3
  let s1 := rotateRight32 w2 17 ^^^ rotateRight32 w2 19 ^^^ w2 >>> 10
  w16 + s0 + w7 + s1

/-- Extends schedule words, newest first, by `count` more. -/
def extend : (count : Nat) → List UInt32 → List UInt32
  | 0, newest => newest
  | count + 1, newest => extend count (nextWord newest :: newest)

def schedule (block : Bytes) : List UInt32 :=
  let words := (Bytes.chunks 4 block).map fun word => (Bytes.ofBigEndian word).toUInt32
  (extend 48 words.reverse).reverse

def step (s : Sha256State) (input : UInt32 × UInt32) : Sha256State :=
  let sum1 := rotateRight32 s.e 6 ^^^ rotateRight32 s.e 11 ^^^ rotateRight32 s.e 25
  let choice := (s.e &&& s.f) ^^^ (~~~s.e &&& s.g)
  let t1 := s.h + sum1 + choice + input.1 + input.2
  let sum0 := rotateRight32 s.a 2 ^^^ rotateRight32 s.a 13 ^^^ rotateRight32 s.a 22
  let majority := (s.a &&& s.b) ^^^ (s.a &&& s.c) ^^^ (s.b &&& s.c)
  ⟨t1 + (sum0 + majority), s.a, s.b, s.c, s.d + t1, s.e, s.f, s.g⟩

def add (s t : Sha256State) : Sha256State :=
  ⟨s.a + t.a, s.b + t.b, s.c + t.c, s.d + t.d, s.e + t.e, s.f + t.f, s.g + t.g, s.h + t.h⟩

def compress (s : Sha256State) (block : Bytes) : Sha256State :=
  s.add ((stepConstants.zip (schedule block)).foldl step s)

/-- The bytes of one word, most significant first. -/
def wordBytes (word : UInt32) : Block 4 :=
  ⟨Bytes.bigEndian 4 word.toNat, by simp [Bytes.bigEndian]⟩

def digest (s : Sha256State) : Block 32 :=
  (((wordBytes s.a).append (wordBytes s.b)).append ((wordBytes s.c).append (wordBytes s.d))).append
    (((wordBytes s.e).append (wordBytes s.f)).append ((wordBytes s.g).append (wordBytes s.h)))

end Sha256State

def sha256 (message : Bytes) : Block 32 :=
  let blocks := Bytes.chunks 64 (lengthPad (Bytes.bigEndian 8) message)
  (blocks.foldl Sha256State.compress .initial).digest

def doubleSha256 (message : Bytes) : Block 32 :=
  sha256 (sha256 message).bytes

end LedgerTx.Hash
